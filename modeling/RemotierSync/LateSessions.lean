import RemotierSync.OlderSessions
import RemotierSync.Reference

/-!
# Sessions older than a change of password

A rewrap replaces the credentials of an account and then revokes its tokens, and a logout revokes
them. Whether that ends every older session depends on when the requests that had opened one put
their tokens. A request that has read the account under the old credentials, or has consumed a
token of an ended session, and puts its tokens after the revocation leaves a session that
survives; if no request does, none survives.
-/

namespace RemotierSync.Sessions

open Program Pool Auth

variable {ι : Type} [DecidableEq ι] {P : Platform} {cfg : Config} {requests : ι → SessionRequest}
  {db : SqliteDb} {turns : List (Turn ι ℤ)} {t : Turn ι ℤ} {s : State ι} {i k : ι}
  {accountId : String}

/-! ## What a request has opened -/

/-- The request has opened a session of this account and of no other, and will issue tokens for
it alone. -/
def OpenedFor (P : Platform) (cfg : Config) (requests : ι → SessionRequest) (db : SqliteDb)
    (turns : List (Turn ι ℤ)) (i : ι) (accountId : String) : Prop :=
  (∀ other, Happened P cfg requests db (Opens P other i) turns →
      other = accountId) ∧
    Issuing (hashes P (requests i)) accountId ((reached P cfg requests db turns).tasks i)

def NotOpened (P : Platform) (cfg : Config) (requests : ι → SessionRequest) (db : SqliteDb)
    (turns : List (Turn ι ℤ)) (i : ι) : Prop :=
  (∀ id, ¬ Happened P cfg requests db (Opens P id i) turns) ∧
    Unopened (hashes P (requests i)) ((reached P cfg requests db turns).tasks i)

omit [DecidableEq ι] in
theorem not_opens_of_issuing {hs : List String} {id other : String}
    (h : Issuing hs id (s.tasks i)) : ¬ Opens P other i s t := by
  rintro (⟨email, hmakes, _⟩ | ⟨hash, kind, hmakes, _⟩)
  · obtain ⟨next, hp⟩ := hmakes.exists_call
    rw [hp] at h
    exact h.1
  · obtain ⟨next, hp⟩ := hmakes.exists_call
    rw [hp] at h
    exact h.1

theorem openedFor_snoc (h : OpenedFor P cfg requests db turns i accountId) :
    OpenedFor P cfg requests db (turns ++ [t]) i accountId := by
  refine ⟨?_, ?_⟩
  · intro other hother
    rcases happened_snoc.mp hother with hother | hnow
    · exact h.1 other hother
    · exact absurd hnow (not_opens_of_issuing h.2)
  · rw [reached_snoc]
    exact everywhere_turn answers_exec h.2

omit [DecidableEq ι] in
theorem opens_unique {id other : String} (h : Opens P id i s t) (h' : Opens P other i s t) :
    other = id := by
  rcases h with ⟨email, hmakes, a, ha, rfl⟩ | ⟨hash, kind, hmakes, row, hrow, rfl⟩
  · rcases h' with ⟨email', hmakes', a', ha', rfl⟩ | ⟨hash', kind', hmakes', _⟩
    · obtain rfl : email' = email := Call.accountByEmail.inj (hmakes.unique hmakes')
      rw [Option.mem_unique ha ha']
    · exact absurd (hmakes.unique hmakes') Call.noConfusion
  · rcases h' with ⟨email', hmakes', _⟩ | ⟨hash', kind', hmakes', row', hrow', rfl⟩
    · exact absurd (hmakes.unique hmakes') Call.noConfusion
    · obtain ⟨rfl, rfl⟩ := Call.consumeToken.inj (hmakes.unique hmakes')
      rw [Option.mem_unique hrow hrow']

theorem issuing_of_opens {hs : List String} (h : Unopened hs (s.tasks i))
    (hopens : Opens P accountId i s t) : Issuing hs accountId ((step P s t).tasks i) := by
  rcases hopens with ⟨email, hmakes, a, ha, rfl⟩ | ⟨hash, kind, hmakes, row, hrow, rfl⟩
  · obtain ⟨next, hp⟩ := hmakes.exists_call
    have hnext : (step P s t).tasks i = next (some a) := by
      apply turn_task_of_ok hmakes hp
      exact congrArg Except.ok ha
    rw [hp] at h
    rw [hnext]
    cases h with
    | email hsome _ => exact hsome a
    | plain h => exact h.1.elim
  · obtain ⟨next, hp⟩ := hmakes.exists_call
    have hnext : (step P s t).tasks i = next (some row) := by
      apply turn_task_of_ok hmakes hp
      exact congrArg Except.ok hrow
    rw [hp] at h
    rw [hnext]
    cases h with
    | token hsome _ => exact hsome row
    | plain h => exact h.1.elim

theorem unopened_turn {hs : List String} (h : Unopened hs (s.tasks i))
    (hno : ∀ id, ¬ Opens P id i s t) : Unopened hs ((step P s t).tasks i) := by
  rcases turn_task_cases s t i with hsame | ⟨c, next, hmakes, hp, hnext⟩
  · rw [hsame]
    exact h
  · rcases hnext with ⟨r, hr, hnext⟩ | ⟨e, _, hnext⟩
    · rw [hnext]
      rw [hp] at h
      cases h with
      | @email email _ hsome hnone =>
        cases r with
        | none => exact unopened_of_next?_none hnone
        | some a => exact absurd (Or.inl ⟨email, hmakes, a, Except.ok.inj hr, rfl⟩) (hno a.id)
      | @token hash kind _ hsome hnone =>
        cases r with
        | none => exact unopened_of_next?_none hnone
        | some row =>
          exact absurd (Or.inr ⟨hash, kind, hmakes, row, Except.ok.inj hr, rfl⟩) (hno row.accountId)
      | plain h => exact .plain (h.2 r (answers_exec t.input c s.store r hr))
    · rw [hnext]
      exact unopened_of_next?_none rfl

theorem notOpened_or_openedFor (P : Platform) (cfg : Config) (requests : ι → SessionRequest)
    (db : SqliteDb) (turns : List (Turn ι ℤ)) (i : ι) :
    NotOpened P cfg requests db turns i ∨
      ∃ accountId, OpenedFor P cfg requests db turns i accountId := by
  induction turns using List.reverseRecOn with
  | nil => exact Or.inl ⟨fun _ => History.not_occurred_nil, unopened_act (requests i)⟩
  | append_singleton turns t ih =>
    rcases ih with ⟨hnever, hunopened⟩ | ⟨accountId, h⟩
    · by_cases hnow : ∃ id, Opens P id i (reached P cfg requests db turns) t
      · obtain ⟨id, hid⟩ := hnow
        refine Or.inr ⟨id, ?_, ?_⟩
        · intro other hother
          have hother := (happened_snoc.mp hother).resolve_left (hnever other)
          exact opens_unique hid hother
        · rw [reached_snoc]
          exact issuing_of_opens hunopened hid
      · have hno := not_exists.mp hnow
        refine Or.inl ⟨?_, ?_⟩
        · intro id hid
          rcases happened_snoc.mp hid with hid | hid
          · exact hnever id hid
          · exact hno id hid
        · rw [reached_snoc]
          exact unopened_turn hunopened hno
    · exact Or.inr ⟨accountId, openedFor_snoc h⟩

theorem openedFor_of_putToken {hash id kind : String} {expiresAt : ℤ}
    (h : Makes i (.putToken hash id kind expiresAt) (reached P cfg requests db turns) t) :
    hash ∈ hashes P (requests i) ∧ OpenedFor P cfg requests db turns i id := by
  obtain ⟨next, hp⟩ := h.exists_call
  rcases notOpened_or_openedFor P cfg requests db turns i with
    ⟨_, hunopened⟩ | ⟨accountId, honly, hissuing⟩
  · rw [hp] at hunopened
    cases hunopened with
    | plain hplain => exact hplain.1.elim
  · have hfor : IssuesFor (hashes P (requests i)) accountId (.putToken hash id kind expiresAt) := by
      rw [hp] at hissuing
      exact hissuing.1
    rw [hfor.1]
    exact ⟨hfor.2, honly, hissuing⟩

theorem openedFor_of_row (hfresh : FreshTokens P requests db) {row : TokenEntry}
    (hrow : row ∈ (reached P cfg requests db turns).store.tokens.rows)
    (hhash : row.hash ∈ hashes P (requests i)) :
    OpenedFor P cfg requests db turns i row.accountId := by
  induction turns using List.reverseRecOn generalizing row with
  | nil => exact absurd hhash (hfresh.unused i row hrow)
  | append_singleton turns t ih =>
    apply openedFor_snoc
    rw [reached_snoc] at hrow
    rcases mem_tokens_turn hrow with ⟨old, hold, hsame, hid, _⟩ | ⟨expiresAt, hmakes, _⟩
    · rw [← hid]
      exact ih hold (hsame ▸ hhash)
    · obtain ⟨hown, hopened⟩ := openedFor_of_putToken hmakes
      by_cases hi : t.task = i
      · rwa [hi] at hopened
      · exact absurd hhash (hfresh.apart _ _ hi row.hash hown)

/-! ## What a request has ended -/

theorem endsSessions_reached (turns : List (Turn ι ℤ)) (k : ι) :
    Everywhere Answers EndsSessions ((reached P cfg requests db turns).tasks k) := by
  induction turns using List.reverseRecOn with
  | nil => exact endsSessions_act (requests k)
  | append_singleton turns t ih =>
    rw [reached_snoc]
    exact everywhere_turn answers_exec ih

theorem task_of_revoked
    (h : Happened P cfg requests db (Revokes accountId k) turns) :
    (reached P cfg requests db turns).tasks k = .pure () := by
  induction turns using List.reverseRecOn with
  | nil => exact absurd h History.not_occurred_nil
  | append_singleton turns t ih =>
    rw [reached_snoc]
    rcases happened_snoc.mp h with h | hnow
    · have hdone := ih h
      rw [turn_task_of_next?_none (by rw [hdone]; rfl), hdone]
    · obtain ⟨next, hp⟩ := Makes.exists_call hnow
      have hends : Everywhere Answers EndsSessions ((reached P cfg requests db turns).tasks k) :=
        endsSessions_reached turns k
      rw [hp] at hends
      rw [turn_task_of_ok hnow hp rfl]
      exact hends.1

/-- Once a request has replaced the credentials, it has revoked the tokens or does so next. -/
theorem task_of_rewrapped
    (h : Happened P cfg requests db (Rewraps accountId k) turns) :
    Happened P cfg requests db (Revokes accountId k) turns ∨
      (reached P cfg requests db turns).tasks k = ask (.revokeAccountTokens accountId) := by
  induction turns using List.reverseRecOn with
  | nil => exact absurd h History.not_occurred_nil
  | append_singleton turns t ih =>
    rcases happened_snoc.mp h with h | ⟨new, hnow⟩
    · rcases ih h with hrevoked | htask
      · exact Or.inl (hrevoked.append _)
      · by_cases hk : t.task = k
        · refine Or.inl (happened_snoc.mpr (Or.inr ⟨hk, ?_⟩))
          rw [htask]
          rfl
        · refine Or.inr ?_
          rw [reached_snoc, turn_task_of_ne (Ne.symm hk), htask]
    · obtain ⟨next, hp⟩ := hnow.exists_call
      have hends : Everywhere Answers EndsSessions ((reached P cfg requests db turns).tasks k) :=
        endsSessions_reached turns k
      rw [hp] at hends
      refine Or.inr ?_
      rw [reached_snoc, turn_task_of_ok hnow hp rfl]
      exact hends.1

theorem revoked_of_completed (h : Older P cfg requests db accountId i k turns)
    (hdone : ((reached P cfg requests db turns).tasks k).succeeded = true) :
    Happened P cfg requests db (Revokes accountId k) turns := by
  rcases h with hrewrapped | hrevoked
  · rcases task_of_rewrapped hrewrapped.second with hrevoked | htask
    · exact hrevoked
    · rw [htask] at hdone
      exact absurd hdone Bool.false_ne_true
  · exact hrevoked.second

theorem happened_opens (h : Older P cfg requests db accountId i k turns) :
    Happened P cfg requests db (Opens P accountId i) turns := by
  rcases h with h | h
  · obtain ⟨before, t, after, rfl, hopens⟩ := h.first
    exact ⟨before, t, after, rfl, Or.inl hopens⟩
  · obtain ⟨before, t, after, rfl, hopens⟩ := h.first
    exact ⟨before, t, after, rfl, Or.inr hopens⟩

/-- A turn in which nothing is revoked cannot make a session older than one that has revoked. -/
theorem older_of_older_snoc (h : Older P cfg requests db accountId i k (turns ++ [t]))
    (hrevoked : Happened P cfg requests db (Revokes accountId k) turns) :
    Older P cfg requests db accountId i k turns := by
  have hdone : ((reached P cfg requests db turns).tasks k).next? = none := by
    rw [task_of_revoked hrevoked]
    rfl
  rcases h with h | h
  · rcases History.followed_snoc.mp h with h | ⟨_, new, hnow⟩
    · exact Or.inl h
    · exact absurd (hdone.symm.trans hnow.2) (by simp)
  · rcases History.followed_snoc.mp h with h | ⟨_, hnow⟩
    · exact Or.inr h
    · exact absurd (hdone.symm.trans hnow.2) (by simp)

theorem no_row_of_revoked (hfresh : FreshTokens P requests db)
    (hlate : NoLatePut P cfg requests db turns) (h : Older P cfg requests db accountId i k turns)
    (hrevoked : Happened P cfg requests db (Revokes accountId k) turns) :
    ∀ row ∈ (reached P cfg requests db turns).store.tokens.rows,
      row.hash ∉ hashes P (requests i) := by
  induction turns using List.reverseRecOn with
  | nil => exact absurd hrevoked History.not_occurred_nil
  | append_singleton turns t ih =>
    intro row hrow hhash
    by_cases hnow : Revokes accountId k (reached P cfg requests db turns) t
    · have hid := (openedFor_of_row hfresh hrow hhash).1 accountId (happened_opens h)
      rw [reached_snoc] at hrow
      exact mem_tokens_revoked hnow hrow hid.symm
    · have hbefore := (happened_snoc.mp hrevoked).resolve_right hnow
      have holder := older_of_older_snoc h hbefore
      have hquiet : NoLatePut P cfg requests db turns := by
        intro pre t' post hpre
        exact hlate pre t' (post ++ [t]) (by simp [hpre])
      rw [reached_snoc] at hrow
      rcases mem_tokens_turn hrow with ⟨old, hold, hsame, _⟩ | ⟨expiresAt, hmakes, hok⟩
      · exact ih hquiet holder hbefore old hold (hsame ▸ hhash)
      · by_cases hi : t.task = i
        · rw [hi] at hmakes
          exact hlate turns t [] rfl accountId i k holder hbefore
            ⟨_, _, row.kind, expiresAt, hmakes, hok⟩
        · exact hfresh.apart _ _ hi row.hash (openedFor_of_putToken hmakes).1 hhash

theorem accepts_late (hlate : Puts i (reached P cfg requests db turns) t) :
    ∃ token ∈ (requests i).tokens,
      Accepts P (reached P cfg requests db (turns ++ [t])).store token := by
  obtain ⟨hash, id, kind, expiresAt, hmakes, hok⟩ := hlate
  obtain ⟨token, htoken, rfl⟩ := List.mem_map.mp (openedFor_of_putToken hmakes).1
  refine ⟨token, htoken, accepts_iff.mpr ?_⟩
  rw [reached_snoc, turn_store_of_makes hmakes]
  exact exists_row_of_putToken hok

/-- Older sessions end exactly if no request that opened one stores a token after it was ended. -/
theorem olderSessionsEnd_iff (P : Platform) (cfg : Config) (requests : ι → SessionRequest)
    (db : SqliteDb) (turns : List (Turn ι ℤ)) (hfresh : FreshTokens P requests db) :
    OlderSessionsEnd P cfg requests db turns ↔ NoLatePut P cfg requests db turns := by
  constructor
  · intro hend before t after hturns accountId i k holder hrevoked hput
    obtain ⟨token, htoken, haccepts⟩ := accepts_late hput
    have holder' : Older P cfg requests db accountId i k (before ++ [t]) :=
      holder.imp (fun h => History.followed_snoc.mpr (Or.inl h))
        (fun h => History.followed_snoc.mpr (Or.inl h))
    have hdone : ((reached P cfg requests db (before ++ [t])).tasks k).succeeded = true := by
      rw [task_of_revoked (happened_snoc.mpr (Or.inl hrevoked))]
      rfl
    exact hend (before ++ [t]) after (by simp [hturns]) accountId i k holder' hdone token htoken
      haccepts
  · intro hlate before after hturns accountId i k holder hdone token htoken haccepts
    have hquiet : NoLatePut P cfg requests db before := by
      intro pre t post hpre
      exact hlate pre t (post ++ after) (by simp [hturns, hpre])
    obtain ⟨row, hrow, hhash⟩ := accepts_iff.mp haccepts
    apply no_row_of_revoked hfresh hquiet holder (revoked_of_completed holder hdone) row hrow
    rw [hhash]
    exact List.mem_map_of_mem htoken

def isPutToken : Call → Bool
  | .putToken .. => true
  | _ => false

theorem noLatePut_of_always
    (h : History.Always (step P) (start P cfg requests db)
      (fun s t => ∀ k, (s.tasks k).succeeded = true →
        ∀ c ∈ (s.tasks t.task).next?, isPutToken c = false) turns) :
    NoLatePut P cfg requests db turns := by
  rintro before t after hturns accountId i k _ hrevoked ⟨hash, id, kind, expiresAt, hmakes, _⟩
  have hdone : ((reached P cfg requests db before).tasks k).succeeded = true := by
    rw [task_of_revoked hrevoked]
    rfl
  obtain ⟨rfl, hnext⟩ := hmakes
  exact absurd (h before t after hturns k hdone _ hnext) (by simp [isPutToken])

section Runs

open Reference

def adaServer : SqliteDb := Server.reached .reference Reference.config [registration "ada"]

def signInAndRewrap : Bool → SessionRequest
  | false => .login 1 true ⟨"access", "refresh"⟩ ⟨"ada@example.com", "key-ada", "", ""⟩
  | true => .rewrap ⟨"salt'", "recovery'"⟩ ⟨"ada"⟩ {
      authKey := "new"
      keyMaterial := Reference.keys
      recoveryMaterial := Reference.keys
      recoveryAuthKey := "code" }

def signIn : Turn Bool ℤ := ⟨false, 1⟩

def change : Turn Bool ℤ := ⟨true, 1⟩

/-- The sign-in finds the account, the password changes, and the sign-in stores its tokens. -/
theorem late_session_survives :
    ¬ OlderSessionsEnd .reference Reference.config signInAndRewrap adaServer
      [signIn, change, change, change, signIn, signIn] := by
  intro h
  have holder : Older .reference Reference.config signInAndRewrap adaServer "ada" false true
      [signIn, change, change, change, signIn, signIn] := by
    refine Or.inl ⟨[signIn, change], change, [change, signIn, signIn], rfl, ⟨_, rfl, rfl⟩, ?_⟩
    exact ⟨[], signIn, [change], rfl, "ada@example.com", ⟨rfl, rfl⟩, by decide +kernel⟩
  have haccepts := h _ [] rfl "ada" false true holder (by decide +kernel) "access" (by decide)
  exact haccepts ⟨2, access, by decide +kernel⟩

theorem signInAndRewrap_fresh : FreshTokens .reference signInAndRewrap adaServer where
  apart := by decide +kernel
  unused := by decide +kernel

/-- The sign-in stores its tokens before the password change revokes them. -/
theorem early_session_ends :
    OlderSessionsEnd .reference Reference.config signInAndRewrap adaServer
      [signIn, change, change, signIn, signIn, change] :=
  (olderSessionsEnd_iff .reference Reference.config signInAndRewrap adaServer
    [signIn, change, change, signIn, signIn, change] signInAndRewrap_fresh).mpr
    (noLatePut_of_always (by decide +kernel))

end Runs

end RemotierSync.Sessions
