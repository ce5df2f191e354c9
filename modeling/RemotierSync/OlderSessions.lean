import RemotierSync.Sessions

/-!
# Older sessions and the tokens they leave

The turns that matter to a session: the ones in which a request opens it, the ones in which a
rewrap replaces the credentials of an account or a request revokes its tokens, and the ones in
which a token is stored. A session is older than a rewrap or a logout by the order of these
turns, and a token is accepted exactly as long as its hash is stored.
-/

namespace RemotierSync.Sessions

open Program Pool Auth

variable {ι : Type} [DecidableEq ι] (P : Platform) (cfg : Config) (requests : ι → SessionRequest)
  (db : SqliteDb)

def reached (turns : List (Turn ι ℤ)) : State ι :=
  History.run (step P) (start P cfg requests db) turns

section Turns

omit [DecidableEq ι]

def Reads (accountId : String) (i : ι) (s : State ι) (t : Turn ι ℤ) : Prop :=
  ∃ email, Makes i (.accountByEmail email) s t ∧
    ∃ a ∈ s.store.accountByEmail P SqliteStore.emailEq email, a.id = accountId

def Consumes (accountId : String) (i : ι) (s : State ι) (t : Turn ι ℤ) : Prop :=
  ∃ hash kind, Makes i (.consumeToken hash kind) s t ∧
    ∃ row ∈ s.store.takeToken t.input hash kind, row.accountId = accountId

def Opens (accountId : String) (i : ι) (s : State ι) (t : Turn ι ℤ) : Prop :=
  Reads P accountId i s t ∨ Consumes accountId i s t

def Rewraps (accountId : String) (k : ι) (s : State ι) (t : Turn ι ℤ) : Prop :=
  ∃ new, Makes k (.rewrapAccount accountId new) s t

def Revokes (accountId : String) (k : ι) (s : State ι) (t : Turn ι ℤ) : Prop :=
  Makes k (.revokeAccountTokens accountId) s t

def Puts (i : ι) (s : State ι) (t : Turn ι ℤ) : Prop :=
  ∃ hash accountId kind expiresAt, Makes i (.putToken hash accountId kind expiresAt) s t ∧
    (s.store.putToken hash accountId kind expiresAt).1 = .ok ()

end Turns

/-- A turn of the run was of this kind. -/
def Happened (Q : State ι → Turn ι ℤ → Prop) (turns : List (Turn ι ℤ)) : Prop :=
  History.Occurred (step P) (start P cfg requests db) Q turns

/-- The first request opened a session of the account before the second one replaced the
credentials, or, if it consumed a token, before the second one revoked the tokens. -/
def Older (accountId : String) (i k : ι) (turns : List (Turn ι ℤ)) : Prop :=
  History.Followed (step P) (start P cfg requests db) (Reads P accountId i)
      (Rewraps accountId k) turns ∨
    History.Followed (step P) (start P cfg requests db) (Consumes accountId i)
      (Revokes accountId k) turns

/-- The token is accepted at some time, as an access or as a refresh token. -/
def Accepts (db : SqliteDb) (token : String) : Prop :=
  ∃ now kind, db.takeToken now (P.hashToken token) kind ≠ none

/-- At any moment of the run, what a completed rewrap or logout ended is not accepted. -/
def OlderSessionsEnd (turns : List (Turn ι ℤ)) : Prop :=
  ∀ before after, turns = before ++ after →
    ∀ accountId i k, Older P cfg requests db accountId i k before →
      ((reached P cfg requests db before).tasks k).succeeded = true →
      ∀ token ∈ (requests i).tokens, ¬ Accepts P (reached P cfg requests db before).store token

/-- No request that opened a session before it was ended stores a token after the revocation. -/
def NoLatePut (turns : List (Turn ι ℤ)) : Prop :=
  ∀ before t after, turns = before ++ t :: after →
    ∀ accountId i k, Older P cfg requests db accountId i k before →
      Happened P cfg requests db (Revokes accountId k) before →
      ¬ Puts i (reached P cfg requests db before) t

/-- The tokens drawn by the requests are new, and differ between requests, by their hashes. -/
structure FreshTokens : Prop where
  apart : ∀ i j, i ≠ j → ∀ h ∈ hashes P (requests i), h ∉ hashes P (requests j)
  unused : ∀ i, ∀ row ∈ db.tokens.rows, row.hash ∉ hashes P (requests i)

variable {P} {cfg} {requests} {db} {turns : List (Turn ι ℤ)} {t : Turn ι ℤ} {s : State ι}
  {i k : ι} {accountId : String}

@[simp] theorem reached_snoc : reached P cfg requests db (turns ++ [t]) =
    step P (reached P cfg requests db turns) t :=
  History.run_snoc _ _ _ _

theorem happened_snoc {Q : State ι → Turn ι ℤ → Prop} :
    Happened P cfg requests db Q (turns ++ [t]) ↔
      Happened P cfg requests db Q turns ∨ Q (reached P cfg requests db turns) t :=
  History.occurred_snoc

/-! ## Tokens -/

theorem mem_tokens_putToken {db : Tables} {hash id kind : String} {expiresAt : ℤ} {row : TokenEntry}
    (h : row ∈ (db.putToken hash id kind expiresAt).2.tokens.rows) :
    (∃ old ∈ db.tokens.rows, old.hash = row.hash ∧ old.accountId = row.accountId ∧
        old.kind = row.kind) ∨
      (row.hash = hash ∧ row.accountId = id ∧ row.kind = kind ∧
        (db.putToken hash id kind expiresAt).1 = .ok ()) := by
  unfold Tables.putToken at h ⊢
  split_ifs at h ⊢ with hkind hfk
  · exact Or.inl ⟨row, h, rfl, rfl, rfl⟩
  · exact Or.inl ⟨row, h, rfl, rfl, rfl⟩
  · rcases KeyedTable.mem_upsert.mp h with ⟨hold, _⟩ | rfl
    · exact Or.inl ⟨row, hold, rfl, rfl, rfl⟩
    · cases hfind : db.tokens.find? hash with
      | none =>
        rw [KeyedTable.upserted_of_find?_none hfind]
        exact Or.inr ⟨rfl, rfl, rfl, rfl⟩
      | some old =>
        rw [KeyedTable.upserted_of_find?_some hfind]
        exact Or.inl ⟨old, (KeyedTable.find?_eq_some.mp hfind).1, rfl, rfl, rfl⟩

theorem mem_tokens_exec {now : ℤ} {c : Call} {db : SqliteDb} {row : TokenEntry}
    (h : row ∈ (SqliteStore.exec P now c db).2.tokens.rows) :
    (∃ old ∈ db.tokens.rows, old.hash = row.hash ∧ old.accountId = row.accountId ∧
        old.kind = row.kind) ∨
      ∃ expiresAt, c = .putToken row.hash row.accountId row.kind expiresAt ∧
        (db.putToken row.hash row.accountId row.kind expiresAt).1 = .ok () := by
  cases c with
  | putToken hash id kind expiresAt =>
    rcases mem_tokens_putToken h with hold | ⟨rfl, rfl, rfl, hok⟩
    · exact Or.inl hold
    · exact Or.inr ⟨expiresAt, rfl, hok⟩
  | consumeToken hash kind =>
    exact Or.inl ⟨row, (KeyedTable.mem_delete.mp h).1, rfl, rfl, rfl⟩
  | revokeAccountTokens id =>
    exact Or.inl ⟨row, (KeyedTable.mem_delete.mp h).1, rfl, rfl, rfl⟩
  | _ =>
    rw [(SqliteStore.exec_frame P now _ db).tokens (by simp [SqliteStore.writes])] at h
    exact Or.inl ⟨row, h, rfl, rfl, rfl⟩

theorem mem_tokens_turn {row : TokenEntry} (h : row ∈ (step P s t).store.tokens.rows) :
    (∃ old ∈ s.store.tokens.rows, old.hash = row.hash ∧ old.accountId = row.accountId ∧
        old.kind = row.kind) ∨
      ∃ expiresAt, Makes t.task (.putToken row.hash row.accountId row.kind expiresAt) s t ∧
        (s.store.putToken row.hash row.accountId row.kind expiresAt).1 = .ok () := by
  cases hnext : (s.tasks t.task).next? with
  | none =>
    rw [turn_store_of_next?_none hnext] at h
    exact Or.inl ⟨row, h, rfl, rfl, rfl⟩
  | some c =>
    rw [turn_store_of_makes ⟨rfl, hnext⟩] at h
    rcases mem_tokens_exec h with hold | ⟨expiresAt, rfl, hok⟩
    · exact Or.inl hold
    · exact Or.inr ⟨expiresAt, ⟨rfl, hnext⟩, hok⟩

theorem mem_tokens_revoked (h : Revokes accountId k s t) {row : TokenEntry}
    (hrow : row ∈ (step P s t).store.tokens.rows) : row.accountId ≠ accountId := by
  rw [turn_store_of_makes h] at hrow
  exact of_decide_eq_false (KeyedTable.mem_delete.mp hrow).2

theorem exists_row_of_putToken {db : Tables} {hash id kind : String} {expiresAt : ℤ}
    (h : (db.putToken hash id kind expiresAt).1 = .ok ()) :
    ∃ row ∈ (db.putToken hash id kind expiresAt).2.tokens.rows, row.hash = hash := by
  unfold Tables.putToken at h ⊢
  split_ifs at h ⊢ with hkind hfk
  exact ⟨_, KeyedTable.mem_upsert.mpr (Or.inr rfl),
    KeyedTable.key_upserted (TokenEntry.extend_hash expiresAt)⟩

/-- A token is accepted at some time exactly if its hash is stored. -/
theorem accepts_iff {db : SqliteDb} {token : String} :
    Accepts P db token ↔ ∃ row ∈ db.tokens.rows, row.hash = P.hashToken token := by
  constructor
  · rintro ⟨now, kind, htake⟩
    obtain ⟨found, hfound⟩ := Option.ne_none_iff_exists'.mp htake
    obtain ⟨row, hrow, _⟩ := Option.map_eq_some_iff.mp hfound
    have hlive := List.find?_some hrow
    simp only [Tables.isLive, Bool.and_eq_true, decide_eq_true_eq] at hlive
    exact ⟨row, List.mem_of_find?_eq_some hrow, hlive.1.1⟩
  · rintro ⟨row, hrow, hhash⟩
    refine ⟨row.expiresAt - 1, row.kind, ?_⟩
    intro hnone
    rw [Tables.takeToken, Option.map_eq_none_iff, List.find?_eq_none] at hnone
    apply hnone row hrow
    simp only [Tables.isLive, hhash, decide_true, Bool.true_and, decide_eq_true_eq]
    omega

end RemotierSync.Sessions
