import RemotierSync.AccountRows

/-!
# The tokens table

What each request of a run leaves in the tokens table. A request that is answered with a session
stores the two tokens of that session, a refresh after it has consumed its own; a logout and a
rewrap that succeeds delete the tokens of their account; and no other request changes a token.
-/

namespace RemotierSync

namespace Arrival

def drawn (a : Arrival) : List String :=
  match a.request with
  | .register _ _ _ minted _ => [minted.accessToken, minted.refreshToken]
  | .login _ minted _ => [minted.accessToken, minted.refreshToken]
  | .refresh minted _ => [minted.accessToken, minted.refreshToken]
  | .recover _ minted _ => [minted.accessToken, minted.refreshToken]
  | _ => []

/-- The refresh token that the request presents. -/
def presented (a : Arrival) : Option String :=
  match a.request with
  | .refresh _ refreshToken => some refreshToken
  | _ => none

end Arrival

namespace Auth

open SqliteStore Server

variable (P : Platform) (cfg : Config) (db : SqliteDb) (a : Arrival)

theorem access_ne_refreshKind : access ≠ refreshKind := by decide

def answer : Option Session :=
  match a.request with
  | .register admitted newId salts minted body =>
    (Program.run (exec P a.now) (register P cfg a.now admitted newId salts minted body)
      db).1.toOption
  | .login admitted minted body =>
    (Program.run (exec P a.now) (login P cfg a.now admitted minted body) db).1.toOption
  | .refresh minted refreshToken =>
    (Program.run (exec P a.now) (refresh P cfg a.now minted refreshToken) db).1.toOption
  | .recover admitted minted body =>
    (Program.run (exec P a.now) (recover P cfg a.now admitted minted body) db).1.toOption
  | _ => none

def Ends (accountId : String) : Prop :=
  match a.request with
  | .logout caller => caller.accountId = accountId
  | .rewrap salts caller body =>
    caller.accountId = accountId ∧
      (Program.run (exec P a.now) (rewrap P salts caller body) db).1 = .ok ()
  | _ => False

/-- The tokens that a request leaves before it stores any: a refresh has consumed its own. -/
def unspent : KeyedTable TokenEntry.hash :=
  match a.presented with
  | some refreshToken => (db.consumeToken a.now (P.hashToken refreshToken) refreshKind).2.tokens
  | none => db.tokens

def Owned : Prop := ∀ row ∈ db.tokens.rows, db.accountById row.accountId ≠ none

/-- Either a session is issued, on top of the tokens that are kept, or the handler fails and the
tokens are as before. -/
def IssuesOrFails (now : ℤ) (minted : Minted) (kept : KeyedTable TokenEntry.hash)
    (result : Except Error Session × SqliteDb) : Prop :=
  (∃ session, result.1 = .ok session ∧
    minted = ⟨session.accessToken, session.refreshToken⟩ ∧
    result.2.tokens = withSession P cfg now minted session.accountId kept) ∨
  ∃ e, result.1 = .error e ∧ result.2.tokens = db.tokens

variable {P} {cfg} {db} {a} {now : ℤ} {minted : Minted} {session : Session} {accountId : String}

section Handlers

variable {admitted : Bool} {newId : String} {salts : Salts}

theorem issuesOrFails_register (body : RegisterRequest) :
    IssuesOrFails P cfg db now minted db.tokens
      (Program.run (exec P now) (register P cfg now admitted newId salts minted body) db) := by
  by_cases h : ∃ new, registration P cfg admitted salts body = .ok new ∧
      db.toTables.Free P emailEq newId new.email
  · obtain ⟨new, hnew, hfree⟩ := h
    obtain ⟨devices, hrun⟩ := run_register_of_ok cfg now now minted hnew hfree
    rw [hrun]
    exact Or.inl ⟨_, rfl, rfl, rfl⟩
  · obtain ⟨e, hrun⟩ := run_register_of_error cfg now now minted
      (fun new hnew hfree => h ⟨new, hnew, hfree⟩)
    rw [hrun]
    exact Or.inr ⟨e, rfl, rfl⟩

theorem issuesOrFails_signIn {email deviceId deviceName : String} {accepts : Account → Bool}
    {view : Account → Account} (hview : ∀ account, (view account).id = account.id) :
    IssuesOrFails P cfg db now minted db.tokens
      (Program.run (exec P now)
        (signIn P cfg now admitted minted email accepts view deviceId deviceName) db) := by
  rcases run_signIn_cases cfg now now minted deviceId deviceName hview with
    ⟨account, devices, hrun⟩ | ⟨e, hrun⟩
  · rw [hrun]
    exact Or.inl ⟨_, rfl, rfl, by rw [sessionOf, hview]⟩
  · rw [hrun]
    exact Or.inr ⟨e, rfl, rfl⟩

theorem issuesOrFails_login (body : LoginRequest) :
    IssuesOrFails P cfg db now minted db.tokens
      (Program.run (exec P now) (login P cfg now admitted minted body) db) := by
  rw [login_eq]
  exact issuesOrFails_signIn (fun _ => rfl)

theorem issuesOrFails_recover (body : RecoverRequest) :
    IssuesOrFails P cfg db now minted db.tokens
      (Program.run (exec P now) (recover P cfg now admitted minted body) db) := by
  rw [recover_eq]
  exact issuesOrFails_signIn (fun _ => rfl)

theorem row_of_takeToken {hash kind : String} {row : TokenRow}
    (h : db.takeToken now hash kind = some row) : ∃ stored ∈ db.tokens.rows,
      stored.hash = hash ∧ stored.kind = kind ∧ now < stored.expiresAt ∧
        stored.accountId = row.accountId := by
  obtain ⟨stored, hfind, rfl⟩ := Option.map_eq_some_iff.mp h
  obtain ⟨hhash, hkind, hlive⟩ := Tables.isLive_iff.mp (List.find?_some hfind)
  exact ⟨stored, List.mem_of_find?_eq_some hfind, hhash, hkind, hlive, rfl⟩

theorem issuesOrFails_refresh (hdb : Owned db) (refreshToken : String) :
    IssuesOrFails P cfg db now minted
      (db.consumeToken now (P.hashToken refreshToken) refreshKind).2.tokens
      (Program.run (exec P now) (refresh P cfg now minted refreshToken) db) := by
  cases htoken : db.takeToken now (P.hashToken refreshToken) refreshKind with
  | none =>
    rw [run_refresh_of_no_token cfg now now minted htoken]
    exact Or.inr ⟨_, rfl, rfl⟩
  | some row =>
    obtain ⟨stored, hstored, _, _, _, hid⟩ := row_of_takeToken htoken
    cases haccount : db.accountById row.accountId with
    | none => exact absurd haccount (hid ▸ hdb stored hstored)
    | some account =>
      obtain ⟨devices, hrun⟩ := run_refresh_of_ok cfg now now minted htoken haccount
      rw [hrun]
      refine Or.inl ⟨_, rfl, rfl, ?_⟩
      rw [sessionOf, KeyedTable.find?_key_eq haccount]

end Handlers

/-! ## One request -/

section Serve

theorem tokens_of_issuesOrFails {kept : KeyedTable TokenEntry.hash} {p : Handler Session}
    (houtcome : IssuesOrFails P cfg db now minted kept (Program.run (exec P now) p db)) :
    (∀ session, (Program.run (exec P now) p db).1.toOption = some session →
      [minted.accessToken, minted.refreshToken] = [session.accessToken, session.refreshToken] ∧
        (Program.run (exec P now) (Program.discard p) db).2.tokens =
          withSession P cfg now ⟨session.accessToken, session.refreshToken⟩
            session.accountId kept) ∧
    ((Program.run (exec P now) p db).1.toOption = none →
      (Program.run (exec P now) (Program.discard p) db).2.tokens = db.tokens) := by
  rw [Program.run_discard_snd]
  rcases houtcome with ⟨session, hok, rfl, htokens⟩ | ⟨e, herror, htokens⟩
  · rw [hok]
    refine ⟨?_, fun h => absurd h (by simp [Except.toOption])⟩
    intro session' hsession
    obtain rfl : session = session' := Option.some.inj hsession
    exact ⟨rfl, htokens⟩
  · rw [herror]
    exact ⟨fun _ h => absurd h (by simp [Except.toOption]), fun _ => htokens⟩

theorem tokens_serve_of_answer (hdb : Owned db) (h : answer P cfg db a = some session) :
    a.drawn = [session.accessToken, session.refreshToken] ∧
      (serve P cfg db a).tokens =
        withSession P cfg a.now ⟨session.accessToken, session.refreshToken⟩ session.accountId
          (unspent P db a) := by
  obtain ⟨time, request⟩ := a
  cases request with
  | register admitted newId salts minted body =>
    exact (tokens_of_issuesOrFails (issuesOrFails_register body)).1 session h
  | login admitted minted body =>
    exact (tokens_of_issuesOrFails (issuesOrFails_login body)).1 session h
  | refresh minted refreshToken =>
    exact (tokens_of_issuesOrFails (issuesOrFails_refresh hdb refreshToken)).1 session h
  | recover admitted minted body =>
    exact (tokens_of_issuesOrFails (issuesOrFails_recover body)).1 session h
  | _ => simp [answer] at h

theorem tokens_serve_of_ends (h : Ends P db a accountId) :
    (serve P cfg db a).tokens = (db.revokeAccountTokens accountId).tokens := by
  obtain ⟨time, request⟩ := a
  cases request with
  | rewrap salts caller body =>
    obtain ⟨rfl, hok⟩ := h
    obtain ⟨account, new, haccount, hnew⟩ := exists_replacement time hok
    exact congrArg (fun r : Except Error Unit × SqliteDb => r.2.tokens)
      (run_rewrap_of_ok time haccount hnew)
  | logout caller =>
    obtain rfl : caller.accountId = accountId := h
    rfl
  | _ => exact h.elim

theorem tokens_serve_of_neither (hdb : WellFormed db) (howned : Owned db)
    (hanswer : answer P cfg db a = none) (hends : ∀ accountId, ¬ Ends P db a accountId) :
    (serve P cfg db a).tokens = db.tokens := by
  obtain ⟨time, request⟩ := a
  cases request with
  | register admitted newId salts minted body =>
    exact (tokens_of_issuesOrFails (issuesOrFails_register body)).2 hanswer
  | login admitted minted body =>
    exact (tokens_of_issuesOrFails (issuesOrFails_login body)).2 hanswer
  | refresh minted refreshToken =>
    exact (tokens_of_issuesOrFails (issuesOrFails_refresh howned refreshToken)).2 hanswer
  | recover admitted minted body =>
    exact (tokens_of_issuesOrFails (issuesOrFails_recover body)).2 hanswer
  | rewrap salts caller body =>
    have hfails : ∀ account, db.accountById caller.accountId = some account →
        ∀ new, replacement P salts body account ≠ .ok new := by
      intro account haccount new hnew
      exact hends caller.accountId
        ⟨rfl, congrArg Prod.fst (run_rewrap_of_ok time haccount hnew)⟩
    obtain ⟨e, hrun⟩ := run_rewrap_of_error time hfails
    exact congrArg (fun r : Except Error Unit × SqliteDb => r.2.tokens) hrun
  | logout caller => exact absurd rfl (hends caller.accountId)
  | push caller body =>
    unfold serve act
    dsimp only
    rw [Program.run_discard_snd]
    exact (Sync.afterPush_frame hdb).2.2
  | pull caller cursor =>
    unfold serve act
    dsimp only
    rw [Program.run_discard_snd, Sync.run_pull_snd]
  | createShare caller body =>
    exact Shares.create_frame.2.1
  | removeShare caller groupId userId =>
    unfold serve act
    dsimp only
    rw [Shares.remove, run_ask, (exec_frame P time _ db).tokens (by simp [writes])]

end Serve

/-! ## Rows -/

theorem owned_exec {c : Call} (h : Owned db) : Owned (exec P now c db).2 := by
  intro row hrow
  apply exec_keeps_account
  cases c with
  | putToken hash id kind expiresAt =>
    change row ∈ (db.putToken hash id kind expiresAt).2.tokens.rows at hrow
    unfold Tables.putToken at hrow
    split_ifs at hrow with hkind hfk
    · exact h row hrow
    · exact h row hrow
    · rcases KeyedTable.mem_upsert.mp hrow with ⟨hold, _⟩ | rfl
      · exact h row hold
      · cases hfind : db.tokens.find? hash with
        | none =>
          rw [KeyedTable.upserted_of_find?_none hfind]
          exact fun haccount => hfk ⟨hfind, haccount⟩
        | some old =>
          rw [KeyedTable.upserted_of_find?_some hfind]
          exact h old (KeyedTable.find?_eq_some.mp hfind).1
  | consumeToken hash kind => exact h row (KeyedTable.mem_delete.mp hrow).1
  | revokeAccountTokens id => exact h row (KeyedTable.mem_delete.mp hrow).1
  | _ =>
    rw [(exec_frame P now _ db).tokens (by simp [writes])] at hrow
    exact h row hrow

theorem owned_reached (arrivals : List Arrival) : Owned (reached P cfg arrivals) := by
  refine History.run_invariant (I := Owned) ?_ ?_ arrivals
  · intro row hrow
    simp [SqliteDb.migrated, Tables.migrated] at hrow
  · exact fun db a h => Program.run_invariant (fun _ _ => owned_exec) _ h

/-- With tokens whose hashes are new and apart, a session adds two rows. -/
theorem mem_withSession {tokens : KeyedTable TokenEntry.hash} {row : TokenEntry}
    (hnew : ∀ stored ∈ tokens.rows, stored.hash ≠ P.hashToken minted.accessToken ∧
      stored.hash ≠ P.hashToken minted.refreshToken)
    (hapart : P.hashToken minted.accessToken ≠ P.hashToken minted.refreshToken) :
    row ∈ (withSession P cfg now minted accountId tokens).rows ↔
      row ∈ tokens.rows ∨ row = accessRow P cfg now minted accountId ∨
        row = refreshRow P now minted accountId := by
  have haccess : tokens.find? (accessRow P cfg now minted accountId).hash = none :=
    KeyedTable.find?_eq_none.mpr (fun stored hstored => (hnew stored hstored).1)
  have hrows : (Tables.storeToken tokens (accessRow P cfg now minted accountId)).rows =
      tokens.rows ++ [accessRow P cfg now minted accountId] :=
    KeyedTable.rows_upsert_of_find?_none haccess
  have hrefresh : (Tables.storeToken tokens (accessRow P cfg now minted accountId)).find?
      (refreshRow P now minted accountId).hash = none := by
    refine KeyedTable.find?_eq_none.mpr ?_
    rw [hrows]
    intro stored hstored
    rcases List.mem_append.mp hstored with hold | haccessRow
    · exact (hnew stored hold).2
    · rw [List.mem_singleton.mp haccessRow]
      exact hapart
  have hboth : (withSession P cfg now minted accountId tokens).rows =
      (tokens.rows ++ [accessRow P cfg now minted accountId]) ++
        [refreshRow P now minted accountId] := by
    rw [← hrows]
    exact KeyedTable.rows_upsert_of_find?_none hrefresh
  rw [hboth]
  simp

theorem mem_of_mem_unspent {row : TokenEntry} (h : row ∈ (unspent P db a).rows) :
    row ∈ db.tokens.rows := by
  unfold unspent at h
  cases hpresented : a.presented with
  | none => rwa [hpresented] at h
  | some refreshToken =>
    rw [hpresented] at h
    exact (KeyedTable.mem_delete.mp h).1

theorem hash_of_mem_serve (hdb : WellFormed db) (howned : Owned db) {row : TokenEntry}
    (h : row ∈ (serve P cfg db a).tokens.rows) :
    (∃ old ∈ db.tokens.rows, old.hash = row.hash) ∨ row.hash ∈ a.drawn.map P.hashToken := by
  have hstore {tokens : KeyedTable TokenEntry.hash} {added : TokenEntry}
      (hrow : row ∈ (Tables.storeToken tokens added).rows) :
      row ∈ tokens.rows ∨ row.hash = added.hash := by
    rcases KeyedTable.mem_upsert.mp hrow with ⟨hold, _⟩ | rfl
    · exact Or.inl hold
    · exact Or.inr (KeyedTable.key_upserted (TokenEntry.extend_hash _))
  cases hanswer : answer P cfg db a with
  | some session =>
    obtain ⟨hdrawn, htokens⟩ := tokens_serve_of_answer howned hanswer
    rw [htokens] at h
    rw [hdrawn]
    rcases hstore h with h | hrefresh
    · rcases hstore h with h | haccess
      · exact Or.inl ⟨row, mem_of_mem_unspent h, rfl⟩
      · exact Or.inr (by simp [haccess, accessRow])
    · exact Or.inr (by simp [hrefresh, refreshRow])
  | none =>
    left
    by_cases hends : ∃ ended, Ends P db a ended
    · obtain ⟨ended, hended⟩ := hends
      rw [tokens_serve_of_ends hended] at h
      exact ⟨row, (KeyedTable.mem_delete.mp h).1, rfl⟩
    · rw [tokens_serve_of_neither hdb howned hanswer (not_exists.mp hends)] at h
      exact ⟨row, h, rfl⟩

theorem takeToken_eq_some {hash kind : String} : db.takeToken now hash kind = some ⟨accountId⟩ ↔
    ∃ expiresAt, now < expiresAt ∧ ⟨hash, accountId, kind, expiresAt⟩ ∈ db.tokens.rows := by
  constructor
  · intro h
    obtain ⟨stored, hstored, rfl, rfl, hlive, rfl⟩ := row_of_takeToken h
    exact ⟨stored.expiresAt, hlive, hstored⟩
  · rintro ⟨expiresAt, hlive, hstored⟩
    cases htake : db.takeToken now hash kind with
    | none =>
      rw [Tables.takeToken, Option.map_eq_none_iff, List.find?_eq_none] at htake
      exact absurd (htake _ hstored) (by simp [Tables.isLive, hlive])
    | some row =>
      obtain ⟨found, hfound, hhash, _, _, hid⟩ := row_of_takeToken htake
      obtain rfl := db.tokens.eq_of_key_eq hfound hstored hhash
      exact congrArg (fun id => some (TokenRow.mk id)) hid.symm

end Auth
end RemotierSync
