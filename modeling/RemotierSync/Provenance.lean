import RemotierSync.TokenRows
import RemotierSync.Reference

/-!
# Where a session comes from

In a run whose tokens never repeat, the tokens table is the history of the run: a token is stored
for an account exactly if a request of the account minted it and no logout, rewrap or refresh has
retired it since. What the server accepts, and for whom, follows from the row.
-/

namespace RemotierSync

inductive TokenKind where
  | access
  | refresh
deriving DecidableEq

namespace TokenKind

def asStr : TokenKind → String
  | .access => Auth.access
  | .refresh => Auth.refreshKind

def token : TokenKind → Session → String
  | .access, session => session.accessToken
  | .refresh, session => session.refreshToken

def ttlMs (cfg : Config) : TokenKind → ℤ
  | .access => cfg.accessTtlSecs * 1000
  | .refresh => Auth.refreshTtlMs

theorem asStr_inj {kind kind' : TokenKind} : kind.asStr = kind'.asStr ↔ kind = kind' := by
  cases kind <;> cases kind' <;> decide

end TokenKind

namespace Provenance

open Server Auth SqliteStore

variable (P : Platform) (cfg : Config) (kind : TokenKind) (accountId token : String)
  (expiresAt : ℤ)

/-- The request is answered with a session of the account, in which the token is of this kind. -/
def Mints (db : SqliteDb) (a : Arrival) : Prop :=
  ∃ session, answer P cfg db a = some session ∧ session.accountId = accountId ∧
    kind.token session = token ∧ expiresAt = a.now + kind.ttlMs cfg

def Consumes (db : SqliteDb) (a : Arrival) : Prop :=
  a.presented = some token ∧ answer P cfg db a ≠ none

def Retires (db : SqliteDb) (a : Arrival) : Prop :=
  Ends P db a accountId ∨ (kind = .refresh ∧ Consumes P cfg token db a)

/-- The token was minted for the account, is not expired, and has not been retired since. -/
def Valid (now : ℤ) (arrivals : List Arrival) : Prop :=
  ∃ expiresAt, now < expiresAt ∧
    History.Since (serve P cfg) .migrated (Mints P cfg kind accountId token expiresAt)
      (Retires P cfg kind accountId token) arrivals

def Presents (authorization : Option String) (token : String) : Prop :=
  ∃ header, authorization = some ("Bearer " ++ header) ∧ trim header = token

def drawn (arrivals : List Arrival) : List String := arrivals.flatMap Arrival.drawn

def tokens (arrivals : List Arrival) : List String :=
  arrivals.flatMap (fun a => a.drawn ++ a.presented.toList)

/-- No token is drawn twice, and no two tokens have one hash. -/
structure Fresh (arrivals : List Arrival) (token : String) : Prop where
  once : (drawn arrivals).Nodup
  apart : ∀ x ∈ token :: tokens arrivals, ∀ y ∈ token :: tokens arrivals,
    P.hashToken x = P.hashToken y → x = y

/-- What the server accepts goes back to the run. -/
structure Accounted (arrivals : List Arrival) (token : String) : Prop where
  access : ∀ now authorization accountId, Presents authorization token →
    ((Program.run (exec P now) (Auth.authenticate P authorization) (reached P cfg arrivals)).1 =
        .ok ⟨accountId⟩ ↔
      Valid P cfg .access accountId token now arrivals)
  refresh : ∀ now minted accountId,
    (∃ session, (Program.run (exec P now) (Auth.refresh P cfg now minted token)
        (reached P cfg arrivals)).1 = .ok session ∧ session.accountId = accountId) ↔
      Valid P cfg .refresh accountId token now arrivals
  accessOnly : ∀ accountId expiresAt,
    History.Occurred (serve P cfg) .migrated (Mints P cfg .access accountId token expiresAt)
      arrivals → ∀ now minted, ∃ e,
        (Program.run (exec P now) (Auth.refresh P cfg now minted token)
          (reached P cfg arrivals)).1 = .error e
  refreshOnly : ∀ accountId expiresAt,
    History.Occurred (serve P cfg) .migrated (Mints P cfg .refresh accountId token expiresAt)
      arrivals → ∀ now authorization, Presents authorization token → ∃ e,
        (Program.run (exec P now) (Auth.authenticate P authorization) (reached P cfg arrivals)).1 =
          .error e

variable {P} {cfg} {kind} {accountId} {token} {expiresAt} {db : SqliteDb} {a : Arrival}
  {session : Session} {arrivals : List Arrival} {now : ℤ}

/-! ## One request -/

def row (P : Platform) (kind : TokenKind) (accountId token : String) (expiresAt : ℤ) :
    TokenEntry :=
  ⟨P.hashToken token, accountId, kind.asStr, expiresAt⟩

theorem not_ends_of_answer (h : answer P cfg db a = some session) : ¬ Ends P db a accountId := by
  obtain ⟨time, request⟩ := a
  cases request with
  | rewrap salts caller body => simp [answer] at h
  | logout caller => simp [answer] at h
  | _ => exact fun hends => hends

theorem ends_inj {accountId' : String} (h : Ends P db a accountId) (h' : Ends P db a accountId') :
    accountId = accountId' := by
  obtain ⟨time, request⟩ := a
  cases request with
  | rewrap salts caller body => exact h.1.symm.trans h'.1
  | logout caller => exact Eq.trans (Eq.symm h) h'
  | _ => exact h.elim

theorem takeToken_of_consumes (h : Consumes P cfg token db a) :
    db.takeToken a.now (P.hashToken token) refreshKind ≠ none := by
  obtain ⟨time, request⟩ := a
  obtain ⟨hpresented, hanswer⟩ := h
  cases request with
  | refresh minted refreshToken =>
    obtain rfl : refreshToken = token := Option.some.inj hpresented
    intro hnone
    apply hanswer
    simp only [answer, run_refresh_of_no_token cfg time time minted hnone]
    rfl
  | _ => simp [Arrival.presented] at hpresented

theorem mem_unspent (hanswer : answer P cfg db a ≠ none)
    (hpresented : ∀ x, a.presented = some x → P.hashToken x = P.hashToken token → x = token) :
    row P kind accountId token expiresAt ∈ (unspent P db a).rows ↔
      row P kind accountId token expiresAt ∈ db.tokens.rows ∧
        ¬ (kind = .refresh ∧ Consumes P cfg token db a) := by
  unfold unspent
  cases hpresent : a.presented with
  | none =>
    have hnot : ¬ Consumes P cfg token db a := by
      rintro ⟨hsome, _⟩
      simp [hpresent] at hsome
    simp [hnot]
  | some refreshToken =>
    dsimp only
    rw [Tables.consumeToken, KeyedTable.mem_delete]
    refine and_congr_right ?_
    intro hmem
    rw [← Bool.not_eq_true, not_iff_not, Tables.isLive_iff]
    constructor
    · rintro ⟨hhash, hkind, _⟩
      obtain rfl := hpresented refreshToken hpresent hhash.symm
      exact ⟨TokenKind.asStr_inj.mp (hkind : kind.asStr = TokenKind.refresh.asStr), hpresent,
        hanswer⟩
    · rintro ⟨rfl, hconsumes⟩
      obtain rfl : refreshToken = token := Option.some.inj (hpresent.symm.trans hconsumes.1)
      obtain ⟨taken, htaken⟩ := Option.ne_none_iff_exists'.mp (takeToken_of_consumes hconsumes)
      obtain ⟨stored, hstored, hhash, _, hlive, _⟩ := row_of_takeToken htaken
      obtain rfl := db.tokens.eq_of_key_eq hstored hmem hhash
      exact ⟨rfl, rfl, hlive⟩

theorem row_eq_iff (kind' : TokenKind) {accountId' token' : String} {expiresAt' : ℤ}
    (h : P.hashToken token' = P.hashToken token → token' = token) :
    row P kind accountId token expiresAt = row P kind' accountId' token' expiresAt' ↔
      kind = kind' ∧ accountId' = accountId ∧ token' = token ∧ expiresAt = expiresAt' := by
  rw [row, row, TokenEntry.mk.injEq]
  constructor
  · rintro ⟨hhash, haccount, hkind, hexpires⟩
    exact ⟨TokenKind.asStr_inj.mp hkind, haccount.symm, h hhash.symm, hexpires⟩
  · rintro ⟨rfl, rfl, rfl, rfl⟩
    exact ⟨rfl, rfl, rfl, rfl⟩

theorem eq_row_iff_mints (h : answer P cfg db a = some session)
    (hdrawn : ∀ x ∈ [session.accessToken, session.refreshToken],
      P.hashToken x = P.hashToken token → x = token) :
    (row P kind accountId token expiresAt =
        accessRow P cfg a.now ⟨session.accessToken, session.refreshToken⟩ session.accountId ∨
      row P kind accountId token expiresAt =
        refreshRow P a.now ⟨session.accessToken, session.refreshToken⟩ session.accountId) ↔
      Mints P cfg kind accountId token expiresAt db a := by
  have hmints : Mints P cfg kind accountId token expiresAt db a ↔
      session.accountId = accountId ∧ kind.token session = token ∧
        expiresAt = a.now + kind.ttlMs cfg := by
    constructor
    · rintro ⟨session', hsession, hminted⟩
      rw [Option.some.inj (h.symm.trans hsession)]
      exact hminted
    · exact fun hminted => ⟨session, h, hminted⟩
  have haccess : row P kind accountId token expiresAt =
      accessRow P cfg a.now ⟨session.accessToken, session.refreshToken⟩ session.accountId ↔ _ :=
    row_eq_iff .access (hdrawn _ (by simp))
  have hrefresh : row P kind accountId token expiresAt =
      refreshRow P a.now ⟨session.accessToken, session.refreshToken⟩ session.accountId ↔ _ :=
    row_eq_iff .refresh (hdrawn _ (by simp))
  rw [hmints, haccess, hrefresh]
  cases kind with
  | access => simp [TokenKind.token, TokenKind.ttlMs]
  | refresh => simp [TokenKind.token, TokenKind.ttlMs]

theorem stored_serve_of_answer {session : Session} (howned : Owned db)
    (hanswer : answer P cfg db a = some session)
    (hunused : ∀ stored ∈ db.tokens.rows, stored.hash ∉ a.drawn.map P.hashToken)
    (honce : (a.drawn.map P.hashToken).Nodup)
    (htoken : ∀ x ∈ a.drawn ++ a.presented.toList, P.hashToken x = P.hashToken token → x = token) :
    row P kind accountId token expiresAt ∈ (serve P cfg db a).tokens.rows ↔
      Mints P cfg kind accountId token expiresAt db a ∨
        (row P kind accountId token expiresAt ∈ db.tokens.rows ∧
          ¬ Retires P cfg kind accountId token db a) := by
  obtain ⟨hdrawn, htokens⟩ := tokens_serve_of_answer howned hanswer
  rw [hdrawn, List.map_cons, List.map_singleton] at hunused honce
  rw [hdrawn] at htoken
  have hnew : ∀ stored ∈ (unspent P db a).rows,
      stored.hash ≠ P.hashToken session.accessToken ∧
        stored.hash ≠ P.hashToken session.refreshToken := by
    intro stored hstored
    have hunused := hunused stored (mem_of_mem_unspent hstored)
    simpa using hunused
  have hretires : Retires P cfg kind accountId token db a ↔
      kind = .refresh ∧ Consumes P cfg token db a :=
    or_iff_right (not_ends_of_answer hanswer)
  have hanswered : answer P cfg db a ≠ none := by simp [hanswer]
  rw [htokens, mem_withSession hnew (by simpa using honce), hretires,
    mem_unspent hanswered (fun x hx => htoken x (by simp [hx])),
    eq_row_iff_mints hanswer (fun x hx => htoken x (List.mem_append_left _ hx))]
  exact or_comm

theorem stored_serve_of_no_answer (hdb : WellFormed db) (howned : Owned db)
    (hanswer : answer P cfg db a = none) :
    row P kind accountId token expiresAt ∈ (serve P cfg db a).tokens.rows ↔
      row P kind accountId token expiresAt ∈ db.tokens.rows ∧ ¬ Ends P db a accountId := by
  by_cases hends : ∃ ended, Ends P db a ended
  · obtain ⟨ended, hended⟩ := hends
    rw [tokens_serve_of_ends hended, Tables.revokeAccountTokens, KeyedTable.mem_delete]
    refine and_congr_right (fun _ => ?_)
    rw [decide_eq_false_iff_not, not_iff_not]
    constructor
    · rintro rfl
      exact hended
    · exact fun h => ends_inj h hended
  · rw [tokens_serve_of_neither hdb howned hanswer (not_exists.mp hends),
      and_iff_left (not_exists.mp hends accountId)]

/-- After a request a token is stored if the request has minted it, or if it was stored before and
the request has not retired it. -/
theorem stored_serve (hdb : WellFormed db) (howned : Owned db)
    (hunused : ∀ stored ∈ db.tokens.rows, stored.hash ∉ a.drawn.map P.hashToken)
    (honce : (a.drawn.map P.hashToken).Nodup)
    (htoken : ∀ x ∈ a.drawn ++ a.presented.toList, P.hashToken x = P.hashToken token → x = token) :
    row P kind accountId token expiresAt ∈ (serve P cfg db a).tokens.rows ↔
      Mints P cfg kind accountId token expiresAt db a ∨
        (row P kind accountId token expiresAt ∈ db.tokens.rows ∧
          ¬ Retires P cfg kind accountId token db a) := by
  cases hanswer : answer P cfg db a with
  | some session => exact stored_serve_of_answer howned hanswer hunused honce htoken
  | none =>
    have hmints : ¬ Mints P cfg kind accountId token expiresAt db a := by
      rintro ⟨session, hsession, _⟩
      simp [hanswer] at hsession
    have hretires : Retires P cfg kind accountId token db a ↔ Ends P db a accountId :=
      or_iff_left (fun h => h.2.2 hanswer)
    rw [or_iff_right hmints, hretires]
    exact stored_serve_of_no_answer hdb howned hanswer

/-! ## The run -/

theorem hash_drawn : ∀ stored ∈ (reached P cfg arrivals).tokens.rows,
    stored.hash ∈ (drawn arrivals).map P.hashToken := by
  induction arrivals using List.reverseRecOn with
  | nil =>
    intro stored hstored
    simp [reached, SqliteDb.migrated, Tables.migrated] at hstored
  | append_singleton arrivals a ih =>
    intro stored hstored
    rw [reached_snoc] at hstored
    rw [drawn, List.flatMap_append, List.map_append, List.flatMap_singleton]
    apply List.mem_append.mpr
    rcases hash_of_mem_serve (wellFormed_reached arrivals) (owned_reached arrivals) hstored with
      ⟨old, hold, hhash⟩ | hnew
    · rw [← hhash]
      exact Or.inl (ih old hold)
    · exact Or.inr hnew

theorem Fresh.init (h : Fresh P (arrivals ++ [a]) token) : Fresh P arrivals token where
  once := by
    have honce := h.once
    rw [drawn, List.flatMap_append] at honce
    exact honce.of_append_left
  apart x hx y hy := by
    have hmono {z : String} (hz : z ∈ token :: tokens arrivals) :
        z ∈ token :: tokens (arrivals ++ [a]) := by
      rw [tokens, List.flatMap_append]
      exact List.mem_cons.mpr ((List.mem_cons.mp hz).imp_right (List.mem_append_left _))
    exact h.apart x (hmono hx) y (hmono hy)

theorem mem_tokens_of_drawn {x : String} (h : x ∈ drawn arrivals) : x ∈ tokens arrivals := by
  obtain ⟨a, ha, hx⟩ := List.mem_flatMap.mp h
  exact List.mem_flatMap.mpr ⟨a, ha, List.mem_append_left _ hx⟩

/-- The tokens table is the history of the run. -/
theorem stored_iff (h : Fresh P arrivals token) :
    row P kind accountId token expiresAt ∈ (reached P cfg arrivals).tokens.rows ↔
      History.Since (serve P cfg) .migrated (Mints P cfg kind accountId token expiresAt)
        (Retires P cfg kind accountId token) arrivals := by
  induction arrivals using List.reverseRecOn with
  | nil =>
    refine iff_of_false ?_ History.not_since_nil
    simp [reached, SqliteDb.migrated, Tables.migrated]
  | append_singleton arrivals a ih =>
    have hlast {x : String} (hx : x ∈ a.drawn ++ a.presented.toList) :
        x ∈ token :: tokens (arrivals ++ [a]) := by
      rw [tokens, List.flatMap_append, List.flatMap_singleton]
      exact List.mem_cons_of_mem _ (List.mem_append_right _ hx)
    have honce := h.once
    rw [drawn, List.flatMap_append, List.flatMap_singleton, List.nodup_append'] at honce
    obtain ⟨_, hdrawn, hdisjoint⟩ := honce
    rw [reached_snoc, History.since_snoc, ← ih h.init]
    refine stored_serve (wellFormed_reached arrivals) (owned_reached arrivals) ?_ ?_ ?_
    · intro stored hstored hmem
      obtain ⟨x, hx, hhash⟩ := List.mem_map.mp (hash_drawn stored hstored)
      obtain ⟨y, hy, hhash'⟩ := List.mem_map.mp hmem
      have hold : x ∈ token :: tokens (arrivals ++ [a]) := by
        rw [tokens, List.flatMap_append]
        exact List.mem_cons_of_mem _ (List.mem_append_left _ (mem_tokens_of_drawn hx))
      obtain rfl : x = y :=
        h.apart x hold y (hlast (List.mem_append_left _ hy)) (hhash.trans hhash'.symm)
      exact hdisjoint hx hy
    · refine List.Nodup.map_on ?_ hdrawn
      intro x hx y hy
      exact h.apart x (hlast (List.mem_append_left _ hx)) y (hlast (List.mem_append_left _ hy))
    · exact fun x hx => h.apart x (hlast hx) token List.mem_cons_self

theorem drawn_of_mints
    (h : History.Occurred (serve P cfg) .migrated (Mints P cfg kind accountId token expiresAt)
      arrivals) : token ∈ drawn arrivals := by
  obtain ⟨before, a, after, rfl, session, hanswer, _, rfl, _⟩ := h
  obtain ⟨hdrawn, _⟩ := tokens_serve_of_answer (owned_reached before) hanswer
  refine List.mem_flatMap.mpr ⟨a, by simp, ?_⟩
  rw [hdrawn]
  cases kind <;> simp [TokenKind.token]

theorem kind_unique {kind' : TokenKind} {accountId' : String} {expiresAt' : ℤ}
    (honce : (drawn arrivals).Nodup)
    (h : History.Occurred (serve P cfg) .migrated (Mints P cfg kind accountId token expiresAt)
      arrivals)
    (h' : History.Occurred (serve P cfg) .migrated
      (Mints P cfg kind' accountId' token expiresAt') arrivals) : kind = kind' := by
  induction arrivals using List.reverseRecOn with
  | nil => exact absurd h History.not_occurred_nil
  | append_singleton arrivals a ih =>
    rw [drawn, List.flatMap_append, List.flatMap_singleton, List.nodup_append'] at honce
    obtain ⟨hinit, hdrawn, hdisjoint⟩ := honce
    have hmem {kind : TokenKind} {accountId : String} {expiresAt : ℤ}
        (hmints : Mints P cfg kind accountId token expiresAt (reached P cfg arrivals) a) :
        token ∈ a.drawn := by
      obtain ⟨session, hanswer, _, rfl, _⟩ := hmints
      rw [(tokens_serve_of_answer (owned_reached arrivals) hanswer).1]
      cases kind <;> simp [TokenKind.token]
    rcases History.occurred_snoc.mp h with hold | hnow
    · rcases History.occurred_snoc.mp h' with hold' | hnow'
      · exact ih hinit hold hold'
      · exact absurd (hmem hnow') (hdisjoint (drawn_of_mints hold))
    · rcases History.occurred_snoc.mp h' with hold' | hnow'
      · exact absurd (hmem hnow) (hdisjoint (drawn_of_mints hold'))
      · obtain ⟨session, hanswer, _, htoken, _⟩ := hnow
        obtain ⟨session', hanswer', _, htoken', _⟩ := hnow'
        obtain rfl : session = session' := Option.some.inj (hanswer.symm.trans hanswer')
        rw [(tokens_serve_of_answer (owned_reached arrivals) hanswer).1] at hdrawn
        have hne : session.accessToken ≠ session.refreshToken := by simpa using hdrawn
        cases kind <;> cases kind'
        · rfl
        · exact absurd (htoken.trans htoken'.symm) hne
        · exact absurd (htoken'.trans htoken.symm) hne
        · rfl

/-! ## What is accepted -/

theorem isPrefixOf?_append (front back : String) :
    front.toList.isPrefixOf? (front ++ back).toList = some back.toList :=
  List.isPrefixOf?_eq_some_iff_append_eq.mpr String.toList_append.symm

theorem authenticate_of_bearer {authorization : Option String} {header : List Char}
    (h : authorization.bind (fun v => "Bearer ".toList.isPrefixOf? v.toList) = some header) :
    (Program.run (exec P now) (Auth.authenticate P authorization) db).1 = .ok ⟨accountId⟩ ↔
      db.takeToken now (P.hashToken (trim (String.ofList header))) access = some ⟨accountId⟩ := by
  have htake : exec P now (.takeToken (P.hashToken (trim (String.ofList header))) access) db =
      (.ok (db.takeToken now (P.hashToken (trim (String.ofList header))) access), db) := rfl
  unfold Auth.authenticate
  rw [h]
  dsimp only
  rw [Program.run_bind_ok _ ((run_ask _ _ _).trans htake)]
  cases db.takeToken now (P.hashToken (trim (String.ofList header))) access with
  | none => simp
  | some taken =>
    obtain ⟨id⟩ := taken
    simp

theorem authenticate_ok_iff {authorization : Option String} (h : Presents authorization token) :
    (Program.run (exec P now) (Auth.authenticate P authorization) db).1 = .ok ⟨accountId⟩ ↔
      db.takeToken now (P.hashToken token) access = some ⟨accountId⟩ := by
  obtain ⟨header, rfl, rfl⟩ := h
  have hprefix : (some ("Bearer " ++ header)).bind
      (fun v => "Bearer ".toList.isPrefixOf? v.toList) = some header.toList :=
    isPrefixOf?_append "Bearer " header
  rw [authenticate_of_bearer hprefix, String.ofList_toList]

theorem refresh_ok_iff {minted : Minted} (hdb : Owned db) :
    (∃ session, (Program.run (exec P now) (Auth.refresh P cfg now minted token) db).1 =
        .ok session ∧ session.accountId = accountId) ↔
      db.takeToken now (P.hashToken token) refreshKind = some ⟨accountId⟩ := by
  cases htake : db.takeToken now (P.hashToken token) refreshKind with
  | none =>
    rw [run_refresh_of_no_token cfg now now minted htake]
    simp
  | some taken =>
    obtain ⟨stored, hstored, _, _, _, hid⟩ := row_of_takeToken htake
    obtain ⟨account, haccount⟩ := Option.ne_none_iff_exists'.mp (hdb stored hstored)
    rw [hid] at haccount
    obtain ⟨devices, hrun⟩ := run_refresh_of_ok cfg now now minted htake haccount
    rw [hrun]
    obtain ⟨id⟩ := taken
    obtain rfl : account.id = id := KeyedTable.find?_key_eq haccount
    simp [sessionOf]

theorem takeToken_iff_valid {kindStr : String} (hkind : kindStr = kind.asStr)
    (h : Fresh P arrivals token) :
    (reached P cfg arrivals).takeToken now (P.hashToken token) kindStr = some ⟨accountId⟩ ↔
      Valid P cfg kind accountId token now arrivals := by
  rw [hkind, takeToken_eq_some]
  exact exists_congr (fun expiresAt => and_congr_right (fun _ => stored_iff h))

theorem Valid.occurred (h : Valid P cfg kind accountId token now arrivals) : ∃ expiresAt,
    History.Occurred (serve P cfg) .migrated (Mints P cfg kind accountId token expiresAt)
      arrivals := by
  obtain ⟨expiresAt, _, before, a, after, hsplit, hmints, _⟩ := h
  exact ⟨expiresAt, before, a, after, hsplit, hmints⟩

/-- In a run with fresh tokens every session that is accepted, and every one that is not, is
accounted for. -/
theorem session_provenance (P : Platform) (cfg : Config) (arrivals : List Arrival) (token : String)
    (h : Fresh P arrivals token) : Accounted P cfg arrivals token := by
  have haccess (now : ℤ) (authorization : Option String) (accountId : String)
      (hpresents : Presents authorization token) :
      (Program.run (exec P now) (Auth.authenticate P authorization) (reached P cfg arrivals)).1 =
          .ok ⟨accountId⟩ ↔
        Valid P cfg .access accountId token now arrivals :=
    (authenticate_ok_iff hpresents).trans (takeToken_iff_valid rfl h)
  have hrefresh (now : ℤ) (minted : Minted) (accountId : String) :
      (∃ session, (Program.run (exec P now) (Auth.refresh P cfg now minted token)
          (reached P cfg arrivals)).1 = .ok session ∧ session.accountId = accountId) ↔
        Valid P cfg .refresh accountId token now arrivals :=
    (refresh_ok_iff (owned_reached arrivals)).trans (takeToken_iff_valid rfl h)
  refine ⟨haccess, hrefresh, ?_, ?_⟩
  · intro accountId expiresAt hminted now minted
    cases hrun : (Program.run (exec P now) (Auth.refresh P cfg now minted token)
        (reached P cfg arrivals)).1 with
    | error e => exact ⟨e, rfl⟩
    | ok session =>
      obtain ⟨_, hother⟩ :=
        ((hrefresh now minted session.accountId).mp ⟨session, hrun, rfl⟩).occurred
      exact absurd (kind_unique h.once hminted hother) (by decide)
  · intro accountId expiresAt hminted now authorization hpresents
    cases hrun : (Program.run (exec P now) (Auth.authenticate P authorization)
        (reached P cfg arrivals)).1 with
    | error e => exact ⟨e, rfl⟩
    | ok caller =>
      obtain ⟨_, hother⟩ :=
        ((haccess now authorization caller.accountId hpresents).mp hrun).occurred
      exact absurd (kind_unique h.once hminted hother) (by decide)

def refreshed : List Arrival :=
  [Reference.registration "ada", ⟨5, .refresh ⟨"access", "refresh"⟩ "refresh-ada"⟩]

theorem refreshed_session_accepted : Valid .reference Reference.config .access "ada" "access" 6
    refreshed :=
  ((session_provenance .reference Reference.config refreshed "access"
    ⟨by decide +kernel, by decide +kernel⟩).access 6 (some "Bearer access") "ada"
      ⟨"access", by decide +kernel, by decide +kernel⟩).mp (by decide +kernel)

end Provenance
end RemotierSync
