import RemotierSync.Sqlite

/-!
# What store calls change, and what they preserve

Most calls leave most tables alone: only `put_envelope` touches the records and the counter, and
only two calls write shares. `WellFormed` collects what every call preserves of the counter, the
row numbers and the foreign keys, and `Grows` what a later state of the change log has to do with
an earlier one.
-/

namespace RemotierSync.SqliteStore

/-! ## What a call may change -/

inductive TableName where
  | accounts
  | tokens
  | records
  | shares
  | devices
deriving DecidableEq

/-- The one table a call may write. The counter goes with the records. -/
def writes : Call → Option TableName
  | .createAccount .. => some .accounts
  | .rewrapAccount .. => some .accounts
  | .putToken .. => some .tokens
  | .consumeToken .. => some .tokens
  | .revokeAccountTokens .. => some .tokens
  | .putEnvelope .. => some .records
  | .putShare .. => some .shares
  | .deleteShare .. => some .shares
  | .touchDevice .. => some .devices
  | _ => none

structure Frame (c : Call) (db db' : SqliteDb) : Prop where
  accounts : writes c ≠ some .accounts → db'.accounts = db.accounts
  tokens : writes c ≠ some .tokens → db'.tokens = db.tokens
  records : writes c ≠ some .records → db'.records = db.records
  next : writes c ≠ some .records → db'.next = db.next
  shares : writes c ≠ some .shares → db'.shares = db.shares

variable (P : Platform) (now : ℤ)

theorem exec_frame (c : Call) (db : SqliteDb) : Frame c db (exec P now c db).2 := by
  cases c with
  | createAccount id new =>
    obtain ⟨accounts, hframe⟩ := Tables.createAccount_frame (t := db.toTables) P emailEq id new
    constructor <;> simp [exec, SqliteDb.onTables, hframe, writes]
  | putToken hash id kind expiresAt =>
    obtain ⟨tokens, hframe⟩ := Tables.putToken_frame (t := db.toTables) hash id kind expiresAt
    constructor <;> simp [exec, SqliteDb.onTables, hframe, writes]
  | putShare ownerId groupId userId wrapped =>
    obtain ⟨shares, hframe⟩ :=
      Tables.putShare_frame (t := db.toTables) now ownerId groupId userId wrapped
    constructor <;> simp [exec, SqliteDb.onTables, hframe, writes]
  | touchDevice id deviceId name =>
    obtain ⟨devices, hframe⟩ := Tables.touchDevice_frame (t := db.toTables) now id deviceId name
    constructor <;> simp [exec, SqliteDb.onTables, hframe]
  | putEnvelope id e =>
    exact ⟨fun _ => putEnvelope_frame.1, fun _ => putEnvelope_frame.2.1, fun h => absurd rfl h,
      fun h => absurd rfl h, fun _ => putEnvelope_frame.2.2.1⟩
  | _ => constructor <;> intro h <;> first | rfl | exact absurd rfl h

section Frames

variable {P} {now} {c : Call} {db : SqliteDb}

theorem eq_putEnvelope_of_writes (h : writes c = some .records) :
    ∃ accountId e, c = .putEnvelope accountId e := by
  cases c with
  | putEnvelope accountId e => exact ⟨accountId, e, rfl⟩
  | _ => simp [writes] at h

theorem exec_keeps_account {id : String} (h : db.accountById id ≠ none) :
    (exec P now c db).2.accountById id ≠ none := by
  cases c with
  | createAccount newId new => exact Tables.createAccount_keeps_account P h
  | rewrapAccount id' new => exact Tables.rewrapAccount_keeps_account h
  | _ =>
    rw [Tables.accountById, (exec_frame P now _ db).accounts (by simp [writes])]
    exact h

end Frames

/-! ## What every call preserves -/

/-- The counter bounds the numbers of the log, no two rows share a number, and the foreign keys
of records and shares hold. -/
structure WellFormed (db : SqliteDb) : Prop where
  next_nonneg : 0 ≤ db.next
  seq_pos : ∀ r ∈ db.records.rows, 0 < r.seq
  seq_le : ∀ r ∈ db.records.rows, r.seq ≤ db.next
  distinct : ChangeLog.Distinct RecordEntry.seq db.records.rows
  record_accounts : ∀ r ∈ db.records.rows, db.accountById r.accountId ≠ none
  share_accounts : ∀ s ∈ db.shares.rows,
    db.accountById s.ownerId ≠ none ∧ db.accountById s.userId ≠ none

theorem wellFormed_migrated : WellFormed .migrated where
  next_nonneg := le_rfl
  seq_pos := by simp
  seq_le := by simp
  distinct := List.nodup_nil
  record_accounts := by simp
  share_accounts := by simp

section Preservation

variable {P} {now} {c : Call} {db : SqliteDb} {accountId : String} {e : Envelope}

theorem WellFormed.find?_eq_none (h : WellFormed db) {k : String × String × String}
    (hacc : db.accountById k.1 = none) : db.records.find? k = none := by
  apply KeyedTable.find?_eq_none.mpr
  intro r hr hk
  apply h.record_accounts r hr
  rwa [show r.accountId = k.1 from congrArg Prod.fst hk]

/-- A row can be filed exactly for the accounts that exist. -/
theorem WellFormed.fileable_iff (h : WellFormed db) :
    Fileable db accountId e ↔ db.accountById accountId ≠ none :=
  ⟨fun hfile hnone => hfile ⟨h.find?_eq_none hnone, hnone⟩, fileable_of_account⟩

theorem wellFormed_upsertRecord (h : WellFormed db) {x : RecordEntry} (hseq : x.seq = db.next + 1)
    (hfile : db.toTables.Fileable x) :
    WellFormed { db with records := db.upsertRecord textGt x, next := db.next + 1 } := by
  have hmem : ∀ r ∈ (db.upsertRecord textGt x).rows, r ∈ db.records.rows ∨ r = x :=
    fun r hr => (Tables.mem_upsertRecord hr).imp_right And.left
  have hnext := h.next_nonneg
  refine ⟨by dsimp only; omega, ?_, ?_, ?_, ?_, h.share_accounts⟩
  · intro r hr
    rcases hmem r hr with hr | rfl
    · exact h.seq_pos r hr
    · omega
  · intro r hr
    rcases hmem r hr with hr | rfl
    · have := h.seq_le r hr
      dsimp only
      omega
    · exact hseq.le
  · refine h.distinct.of_added (x := x) (KeyedTable.rows_nodup _) hmem ?_
    intro r hr
    have := h.seq_le r hr
    omega
  · intro r hr
    rcases hmem r hr with hr | rfl
    · exact h.record_accounts r hr
    · exact fun hnone => hfile ⟨h.find?_eq_none hnone, hnone⟩

theorem wellFormed_putEnvelope (h : WellFormed db) :
    WellFormed (putEnvelope P accountId e db).2 := by
  by_cases hfile : Fileable db accountId e
  · rw [putEnvelope_of_fileable hfile]
    exact wellFormed_upsertRecord h rfl hfile
  · rw [putEnvelope_of_not_fileable hfile]
    exact h

theorem share_accounts_putShare {t : Tables} {ownerId groupId userId wrapped : String}
    (h : ∀ s ∈ t.shares.rows, t.accountById s.ownerId ≠ none ∧ t.accountById s.userId ≠ none) :
    ∀ s ∈ (t.putShare now ownerId groupId userId wrapped).2.shares.rows,
      t.accountById s.ownerId ≠ none ∧ t.accountById s.userId ≠ none := by
  by_cases hok : (t.putShare now ownerId groupId userId wrapped).1 = .ok ()
  · intro s hs
    rcases (Tables.mem_putShare hok).mp hs with ⟨hs, _⟩ | hs
    · exact h s hs
    · cases hfind : t.shares.find? (groupId, userId) with
      | none =>
        rw [hfind] at hs
        subst hs
        simp only [Tables.putShare, hfind, true_and] at hok
        split_ifs at hok with hfk
        exact ⟨fun ho => hfk (Or.inl ho), fun hu => hfk (Or.inr hu)⟩
      | some old =>
        rw [hfind] at hs
        subst hs
        exact h old (KeyedTable.find?_eq_some.mp hfind).1
  · rw [Tables.putShare_error hok]
    exact h

theorem exec_share_accounts (h : WellFormed db) : ∀ s ∈ (exec P now c db).2.shares.rows,
    (exec P now c db).2.accountById s.ownerId ≠ none ∧
      (exec P now c db).2.accountById s.userId ≠ none := by
  have hkeep : ∀ s, (db.accountById s.ownerId ≠ none ∧ db.accountById s.userId ≠ none) →
      (exec P now c db).2.accountById s.ownerId ≠ none ∧
        (exec P now c db).2.accountById (ShareEntry.userId s) ≠ none :=
    fun s hs => ⟨exec_keeps_account hs.1, exec_keeps_account hs.2⟩
  intro s hs
  apply hkeep
  cases c with
  | putShare ownerId groupId userId wrapped =>
    exact share_accounts_putShare h.share_accounts s hs
  | deleteShare ownerId groupId userId =>
    exact h.share_accounts s (Tables.mem_deleteShare.mp hs).1
  | _ =>
    rw [(exec_frame P now _ db).shares (by simp [writes])] at hs
    exact h.share_accounts s hs

theorem wellFormed_exec (h : WellFormed db) : WellFormed (exec P now c db).2 := by
  by_cases hc : writes c = some .records
  · obtain ⟨accountId, e, rfl⟩ := eq_putEnvelope_of_writes hc
    exact wellFormed_putEnvelope h
  · have hrecords := (exec_frame P now c db).records hc
    have hnext := (exec_frame P now c db).next hc
    refine ⟨?_, ?_, ?_, ?_, ?_, exec_share_accounts h⟩
    · rw [hnext]
      exact h.next_nonneg
    · rw [hrecords]
      exact h.seq_pos
    · rw [hrecords, hnext]
      exact h.seq_le
    · rw [hrecords]
      exact h.distinct
    · rw [hrecords]
      exact fun r hr => exec_keeps_account (h.record_accounts r hr)

theorem wellFormed_run {α : Type} (p : Handler α) (h : WellFormed db) :
    WellFormed (Program.run (exec P now) p db).2 :=
  Program.run_invariant (fun _ _ => wellFormed_exec) p h

/-- The later log holds rows of the earlier one, and rows whose numbers were drawn since. -/
def Grows (db db' : SqliteDb) : Prop :=
  db.next ≤ db'.next ∧ ∀ r ∈ db'.records.rows, r ∈ db.records.rows ∨ db.next < r.seq

theorem Grows.refl (db : SqliteDb) : Grows db db := ⟨le_rfl, fun _ hr => Or.inl hr⟩

theorem Grows.trans {db' db'' : SqliteDb} (h : Grows db db') (h' : Grows db' db'') :
    Grows db db'' := by
  refine ⟨h.1.trans h'.1, ?_⟩
  intro r hr
  rcases h'.2 r hr with hr | hlt
  · exact h.2 r hr
  · exact Or.inr (h.1.trans_lt hlt)

theorem grows_putEnvelope : Grows db (putEnvelope P accountId e db).2 := by
  by_cases hfile : Fileable db accountId e
  · have hnext := putEnvelope_next (P := P) hfile
    refine ⟨by omega, ?_⟩
    intro r hr
    rcases mem_putEnvelope hr with hr | ⟨rfl, _⟩
    · exact Or.inl hr
    · rw [recordEntry_seq]
      exact Or.inr (by omega)
  · rw [putEnvelope_of_not_fileable hfile]
    exact .refl db

theorem grows_exec : Grows db (exec P now c db).2 := by
  by_cases hc : writes c = some .records
  · obtain ⟨accountId, e, rfl⟩ := eq_putEnvelope_of_writes hc
    exact grows_putEnvelope
  · have hrecords := (exec_frame P now c db).records hc
    have hnext := (exec_frame P now c db).next hc
    refine ⟨hnext.ge, ?_⟩
    rw [hrecords]
    exact fun r hr => Or.inl hr

theorem grows_run {α : Type} (p : Handler α) : Grows db (Program.run (exec P now) p db).2 := by
  apply Program.run_invariant (I := Grows db)
  · intro c s h
    exact h.trans grows_exec
  · exact .refl db

end Preservation

end RemotierSync.SqliteStore
