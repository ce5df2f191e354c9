import RemotierSync.WellFormed

/-!
# Sharing a group

The handlers that create, list and remove shares, and what the two that write leave of the
shares table. `run_create` is the case analysis of a create: refused for oneself, refused for an
account that does not exist, and otherwise the upsert of `put_share`. No check asks whether the
group is already shared by somebody else.
-/

namespace RemotierSync.Shares

open SqliteStore

def create (caller : Caller) (body : ShareRequest) : Handler Unit :=
  if body.userId = caller.accountId then
    .fail (.badRequest "that group is already yours")
  else do
    match ← ask (.accountById body.userId) with
    | none => .fail .notFound
    | some _ => ask (.putShare caller.accountId body.groupId body.userId body.wrappedGroupKey)

def share (r : ShareRow) : Share :=
  ⟨r.groupId, r.ownerId, r.userId, r.email, r.wrappedGroupKey, r.createdAt⟩

def mine (caller : Caller) : Handler (List Share) := do
  let rows ← ask (.sharesForUser caller.accountId)
  return rows.map share

def list (caller : Caller) (groupId : String) : Handler (List Share) := do
  let rows ← ask (.sharesForGroup caller.accountId groupId)
  return rows.map share

def remove (caller : Caller) (groupId userId : String) : Handler Unit :=
  ask (.deleteShare caller.accountId groupId userId)

/-! ## What the writing handlers leave -/

def runCreate (P : Platform) (now : ℤ) (caller : Caller) (body : ShareRequest) (db : SqliteDb) :
    Except Error Unit × SqliteDb :=
  Program.run (exec P now) (create caller body) db

def runRemove (P : Platform) (now : ℤ) (caller : Caller) (groupId userId : String)
    (db : SqliteDb) : Except Error Unit × SqliteDb :=
  Program.run (exec P now) (remove caller groupId userId) db

variable {P : Platform} {now : ℤ} {caller : Caller} {body : ShareRequest} {db : SqliteDb}
  {groupId userId : String} {s : ShareEntry}

theorem run_create : runCreate P now caller body db =
    if body.userId = caller.accountId then
      (.error (.badRequest "that group is already yours"), db)
    else if db.accountById body.userId = none then (.error .notFound, db)
    else exec P now
      (.putShare caller.accountId body.groupId body.userId body.wrappedGroupKey) db := by
  unfold runCreate create
  by_cases hself : body.userId = caller.accountId
  · rw [if_pos hself, if_pos hself]
    rfl
  · rw [if_neg hself, if_neg hself, Program.run_bind, run_ask]
    simp only [exec]
    cases hacc : db.accountById body.userId with
    | none => simp
    | some a =>
      simp only [reduceCtorEq, if_false]
      rw [run_ask]
      rfl

/-- The shares after a create that succeeds: a share that stood keeps its owner. -/
theorem mem_create (h : (runCreate P now caller body db).1 = .ok ()) :
    s ∈ (runCreate P now caller body db).2.shares.rows ↔
      (s ∈ db.shares.rows ∧ s.key ≠ (body.groupId, body.userId)) ∨
        s = match db.shares.find? (body.groupId, body.userId) with
          | none => ⟨body.groupId, caller.accountId, body.userId, body.wrappedGroupKey, now⟩
          | some old => old.rewrap body.wrappedGroupKey := by
  rw [run_create] at h ⊢
  split_ifs at h ⊢ with hself hacc
  exact Tables.mem_putShare h

theorem create_error (h : (runCreate P now caller body db).1 ≠ .ok ()) :
    (runCreate P now caller body db).2 = db := by
  rw [run_create] at h ⊢
  split_ifs at h ⊢ with hself hacc
  · rfl
  · rfl
  · have hput := Tables.putShare_error (t := db.toTables) h
    simp only [exec, SqliteDb.onTables, hput]

/-- What the checks of the code refuse: sharing with oneself, sharing with an account that does
not exist, and a new share whose owner does not exist. -/
def Refused (caller : Caller) (body : ShareRequest) (db : SqliteDb) : Prop :=
  body.userId = caller.accountId ∨ db.accountById body.userId = none ∨
    (db.shares.find? (body.groupId, body.userId) = none ∧
      db.accountById caller.accountId = none)

instance : Decidable (Refused caller body db) := inferInstanceAs (Decidable (_ ∨ _ ∨ _))

theorem create_ok_iff : (runCreate P now caller body db).1 = .ok () ↔ ¬ Refused caller body db := by
  rw [run_create]
  unfold Refused
  by_cases hself : body.userId = caller.accountId
  · simp [hself]
  · by_cases hacc : db.accountById body.userId = none
    · simp [hself, hacc]
    · simp only [hself, hacc, if_false, false_or, or_false, exec, SqliteDb.onTables,
        Tables.putShare]
      split_ifs with hfk <;> simp [hfk]

theorem run_remove : runRemove P now caller groupId userId db =
    (.ok (), { db.toTables.deleteShare caller.accountId groupId userId with next := db.next }) :=
  run_ask _ _ _

theorem mem_remove : s ∈ (runRemove P now caller groupId userId db).2.shares.rows ↔
    s ∈ db.shares.rows ∧
      ¬ (s.groupId = groupId ∧ s.ownerId = caller.accountId ∧ s.userId = userId) := by
  rw [run_remove]
  exact Tables.mem_deleteShare

theorem create_frame : (runCreate P now caller body db).2.records = db.records ∧
    (runCreate P now caller body db).2.tokens = db.tokens ∧
    (runCreate P now caller body db).2.accounts = db.accounts := by
  rw [run_create]
  split_ifs
  · exact ⟨rfl, rfl, rfl⟩
  · exact ⟨rfl, rfl, rfl⟩
  · have hframe := exec_frame P now
      (.putShare caller.accountId body.groupId body.userId body.wrappedGroupKey) db
    exact ⟨hframe.records (by simp [writes]), hframe.tokens (by simp [writes]),
      hframe.accounts (by simp [writes])⟩

end RemotierSync.Shares
