import RemotierSync.Accounts

/-!
# The accounts table

What each request of a run leaves in the accounts table: a register adds a row, a rewrap changes
one, and nothing else writes there. No two accounts ever have one address.
-/

namespace RemotierSync.Auth

open SqliteStore Server

variable {P : Platform} {cfg : Config} {db : SqliteDb} {a : Arrival} {account : Account}

def created (P : Platform) (cfg : Config) (db : SqliteDb) (a : Arrival) : Option Account :=
  match a.request with
  | .register admitted newId salts _ body =>
    match registration P cfg admitted salts body with
    | .error _ => none
    | .ok new =>
      if db.toTables.Free P emailEq newId new.email then some (Tables.newAccount P newId new)
      else none
  | _ => none

/-- The account whose credentials a request replaces, and what it puts in their place. -/
def replaced (P : Platform) (db : SqliteDb) (a : Arrival) : Option (String × NewAccount) :=
  match a.request with
  | .rewrap salts caller body =>
    match db.accountById caller.accountId with
    | none => none
    | some account =>
      (replacement P salts body account).toOption.map (fun new => (caller.accountId, new))
  | _ => none

theorem created_eq_some (h : created P cfg db a = some account) :
    ∃ admitted newId salts minted body new,
      a.request = .register admitted newId salts minted body ∧
        registration P cfg admitted salts body = .ok new ∧
        db.toTables.Free P emailEq newId new.email ∧ account = Tables.newAccount P newId new := by
  obtain ⟨time, request⟩ := a
  cases request with
  | register admitted newId salts minted body =>
    simp only [created] at h
    cases hnew : registration P cfg admitted salts body with
    | error e => simp [hnew] at h
    | ok new =>
      simp only [hnew] at h
      split_ifs at h with hfree
      exact ⟨admitted, newId, salts, minted, body, new, rfl, hnew, hfree,
        (Option.some.inj h).symm⟩
  | _ => simp [created] at h

theorem replaced_eq_some {id : String} {new : NewAccount} (h : replaced P db a = some (id, new)) :
    ∃ salts body account, a.request = .rewrap salts ⟨id⟩ body ∧
      db.accountById id = some account ∧ replacement P salts body account = .ok new := by
  obtain ⟨time, request⟩ := a
  cases request with
  | rewrap salts caller body =>
    simp only [replaced] at h
    cases haccount : db.accountById caller.accountId with
    | none => simp [haccount] at h
    | some account =>
      cases hnew : replacement P salts body account with
      | error e => simp [haccount, hnew, Except.toOption] at h
      | ok new' =>
        simp only [haccount, hnew, Except.toOption, Option.map_some, Option.some.injEq,
          Prod.mk.injEq] at h
        obtain ⟨rfl, rfl⟩ := h
        exact ⟨salts, body, account, rfl, haccount, hnew⟩
  | _ => simp [replaced] at h

theorem accounts_serve_of_created (h : created P cfg db a = some account) :
    (serve P cfg db a).accounts.rows = db.accounts.rows ++ [account] := by
  obtain ⟨admitted, newId, salts, minted, body, new, hrequest, hnew, hfree, rfl⟩ :=
    created_eq_some h
  obtain ⟨devices, hrun⟩ := run_register_of_ok cfg a.now a.now minted hnew hfree
  have hserve : (serve P cfg db a).accounts =
      db.accounts.upsert (Tables.newAccount P newId new) (fun a => a) (fun _ => rfl) := by
    unfold serve act
    rw [hrequest]
    dsimp only
    rw [Program.run_discard_snd, hrun]
  rw [hserve, Tables.rows_of_free hfree]

theorem accounts_serve_of_replaced {id : String} {new : NewAccount}
    (h : replaced P db a = some (id, new)) :
    (serve P cfg db a).accounts = (db.rewrapAccount id new).accounts := by
  obtain ⟨salts, body, account, hrequest, haccount, hnew⟩ := replaced_eq_some h
  unfold serve act
  rw [hrequest]
  dsimp only
  rw [run_rewrap_of_ok a.now haccount hnew]

theorem accounts_serve_of_neither (hdb : WellFormed db) (hcreated : created P cfg db a = none)
    (hreplaced : replaced P db a = none) : (serve P cfg db a).accounts = db.accounts := by
  obtain ⟨time, request⟩ := a
  unfold serve act
  cases request with
  | register admitted newId salts minted body =>
    have hnone : ∀ new, registration P cfg admitted salts body = .ok new →
        ¬ db.toTables.Free P emailEq newId new.email := by
      intro new hnew hfree
      simp [created, hnew, hfree] at hcreated
    obtain ⟨e, hrun⟩ := run_register_of_error cfg time time minted hnone
    dsimp only
    rw [Program.run_discard_snd, hrun]
  | login admitted minted body =>
    dsimp only
    rw [Program.run_discard_snd, login_eq]
    exact accounts_signIn cfg time time minted (fun _ => rfl)
  | refresh minted refreshToken =>
    dsimp only
    rw [Program.run_discard_snd, accounts_refresh]
  | recover admitted minted body =>
    dsimp only
    rw [Program.run_discard_snd, recover_eq]
    exact accounts_signIn cfg time time minted (fun _ => rfl)
  | rewrap salts caller body =>
    have hnone : ∀ account, db.accountById caller.accountId = some account →
        ∀ new, replacement P salts body account ≠ .ok new := by
      intro account haccount new hnew
      simp [replaced, haccount, hnew, Except.toOption] at hreplaced
    obtain ⟨e, hrun⟩ := run_rewrap_of_error time hnone
    dsimp only
    rw [hrun]
  | logout caller =>
    dsimp only
    rw [logout, run_ask, (exec_frame P time _ db).accounts (by simp [writes])]
  | push caller body =>
    dsimp only
    rw [Program.run_discard_snd]
    exact (Sync.afterPush_frame hdb).1
  | pull caller cursor =>
    dsimp only
    rw [Program.run_discard_snd, Sync.run_pull_snd]
  | createShare caller body =>
    exact Shares.create_frame.2.2
  | removeShare caller groupId userId =>
    dsimp only
    rw [Shares.remove, run_ask, (exec_frame P time _ db).accounts (by simp [writes])]

theorem accountById_serve_of_created (h : created P cfg db a = some account) :
    (serve P cfg db a).accountById account.id = some account := by
  have hmem : account ∈ (serve P cfg db a).accounts.rows := by
    rw [accounts_serve_of_created h]
    simp
  exact KeyedTable.find?_isSome_of_mem hmem

theorem accountById_serve_of_replaced {id : String} {new : NewAccount}
    (h : replaced P db a = some (id, new)) (hold : db.accountById id = some account) :
    (serve P cfg db a).accountById id = some (account.rewrap new) := by
  obtain ⟨hmem, hid⟩ := KeyedTable.find?_eq_some.mp hold
  have hrewrapped : account.rewrap new ∈ (serve P cfg db a).accounts.rows := by
    rw [accounts_serve_of_replaced h]
    exact Tables.mem_rewrapAccount.mpr ⟨account, hmem, if_pos hid⟩
  rw [← hid]
  exact KeyedTable.find?_isSome_of_mem hrewrapped

theorem accountById_serve_of_not_replaced {id : String} (hdb : WellFormed db)
    (h : ∀ new, replaced P db a ≠ some (id, new)) (hold : db.accountById id = some account) :
    (serve P cfg db a).accountById id = some account := by
  obtain ⟨hmem, hid⟩ := KeyedTable.find?_eq_some.mp hold
  have hkept : account ∈ (serve P cfg db a).accounts.rows := by
    cases hcreated : created P cfg db a with
    | some added =>
      rw [accounts_serve_of_created hcreated]
      exact List.mem_append_left _ hmem
    | none =>
      cases hreplaced : replaced P db a with
      | none => rwa [accounts_serve_of_neither hdb hcreated hreplaced]
      | some p =>
        have hne : account.id ≠ p.1 := by
          rw [hid]
          rintro rfl
          exact h p.2 hreplaced
        rw [accounts_serve_of_replaced hreplaced]
        exact Tables.mem_rewrapAccount.mpr ⟨account, hmem, if_neg hne⟩
  rw [← hid]
  exact KeyedTable.find?_isSome_of_mem hkept

/-- An account of the next state is new, or was there under the same id and address. -/
theorem account_of_serve (hdb : WellFormed db) (h : account ∈ (serve P cfg db a).accounts.rows) :
    created P cfg db a = some account ∨
      ∃ old ∈ db.accounts.rows, old.id = account.id ∧ old.email = account.email := by
  cases hcreated : created P cfg db a with
  | some added =>
    rw [accounts_serve_of_created hcreated] at h
    rcases List.mem_append.mp h with hold | hnew
    · exact Or.inr ⟨account, hold, rfl, rfl⟩
    · exact Or.inl (congrArg some (List.mem_singleton.mp hnew).symm)
  | none =>
    right
    cases hreplaced : replaced P db a with
    | none =>
      rw [accounts_serve_of_neither hdb hcreated hreplaced] at h
      exact ⟨account, h, rfl, rfl⟩
    | some p =>
      rw [accounts_serve_of_replaced hreplaced] at h
      obtain ⟨old, hold, rfl⟩ := Tables.mem_rewrapAccount.mp h
      refine ⟨old, hold, ?_⟩
      split_ifs <;> exact ⟨rfl, rfl⟩

/-! ## One account for an address -/

/-- No two accounts have one address. -/
def Distinct (db : SqliteDb) : Prop :=
  ∀ x ∈ db.accounts.rows, ∀ y ∈ db.accounts.rows, emailEq x.email y.email = true → x.id = y.id

theorem distinct_serve (hdb : WellFormed db) (h : Distinct db) : Distinct (serve P cfg db a) := by
  have hfree {x added : Account} (hcreated : created P cfg db a = some added)
      (hx : ∃ old ∈ db.accounts.rows, old.id = x.id ∧ old.email = x.email) :
      emailEq x.email added.email = false := by
    obtain ⟨_, newId, _, _, _, new, _, _, hfree, rfl⟩ := created_eq_some hcreated
    obtain ⟨old, hold, _, hemail⟩ := hx
    rw [← hemail]
    exact (hfree old hold).2
  intro x hx y hy hsame
  rcases account_of_serve hdb hx with hxnew | hxold
  · rcases account_of_serve hdb hy with hynew | hyold
    · rw [Option.some.inj (hxnew.symm.trans hynew)]
    · rw [emailEq_iff, eq_comm, ← emailEq_iff, hfree hxnew hyold] at hsame
      simp at hsame
  · rcases account_of_serve hdb hy with hynew | hyold
    · rw [hfree hynew hxold] at hsame
      simp at hsame
    · obtain ⟨x', hx', hxid, hxemail⟩ := hxold
      obtain ⟨y', hy', hyid, hyemail⟩ := hyold
      rw [← hxid, ← hyid]
      exact h x' hx' y' hy' (by rwa [hxemail, hyemail])

theorem distinct_reached (arrivals : List Arrival) : Distinct (reached P cfg arrivals) := by
  induction arrivals using List.reverseRecOn with
  | nil =>
    intro x hx
    simp [reached, SqliteDb.migrated, Tables.migrated] at hx
  | append_singleton arrivals a ih =>
    rw [reached_snoc]
    exact distinct_serve (wellFormed_reached arrivals) ih

theorem accountByEmail_of_distinct {email : String} (hdb : Distinct db)
    (haccount : db.accountById account.id = some account)
    (hsame : emailEq account.email (P.toLowercase (trim email)) = true) :
    db.accountByEmail P emailEq email = some account := by
  have hmem := (KeyedTable.find?_eq_some.mp haccount).1
  cases hfound : db.accountByEmail P emailEq email with
  | none => exact absurd hsame (List.find?_eq_none.mp hfound account hmem)
  | some found =>
    have hfoundSame : emailEq found.email (P.toLowercase (trim email)) = true :=
      List.find?_some (p := fun a : Account => emailEq a.email (P.toLowercase (trim email)))
        hfound
    have hfoundMem := List.mem_of_find?_eq_some hfound
    have hid : found.id = account.id := by
      refine hdb found hfoundMem account hmem ?_
      rw [emailEq_iff] at hsame hfoundSame ⊢
      exact hfoundSame.trans hsame.symm
    rw [← hid] at haccount
    exact congrArg some
      (Option.some.inj ((KeyedTable.find?_isSome_of_mem hfoundMem).symm.trans haccount))

end RemotierSync.Auth
