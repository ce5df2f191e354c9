import RemotierSync.Queries

/-!
# The SQLite backend

The tables and the counter row of the change log, and what each store call does to them. Text is
compared by its bytes, email addresses by `COLLATE NOCASE`. `put_envelope` is one
transaction that takes the next number before it knows whether the write wins; the number is
given back only when the transaction fails. `find?_putEnvelope` says which row it leaves.
-/

namespace RemotierSync

structure SqliteDb extends Tables where
  next : ℤ

namespace SqliteDb

def migrated : SqliteDb := { Tables.migrated with next := 0 }

@[simp] theorem records_migrated : migrated.records = .empty := rfl

@[simp] theorem shares_migrated : migrated.shares = .empty := rfl

def onTables {α : Type} (f : Tables → Except Error α × Tables) (db : SqliteDb) :
    Except Error α × SqliteDb :=
  ((f db.toTables).1, { (f db.toTables).2 with next := db.next })

end SqliteDb

namespace SqliteStore

variable (P : Platform) (now : ℤ)

/-- What `COLLATE NOCASE` looks at: the length in bytes, and up to the first U+0000 the characters
without regard to ASCII case. -/
def nocase (s : String) : ℕ × List Char :=
  (s.utf8ByteSize, (s.toList.takeWhile (· ≠ '\x00')).map Char.toLower)

def emailEq (a b : String) : Bool := nocase a = nocase b

theorem emailEq_iff {a b : String} : emailEq a b = true ↔ nocase a = nocase b := decide_eq_true_iff

def textGt (a b : String) : Bool := a > b

def putEnvelope (accountId : String) (e : Envelope) (db : SqliteDb) :
    Except Error (Option ℤ) × SqliteDb :=
  let seq := db.next + 1
  match db.toTables.putRecord textGt (P.recordEntry accountId e seq) with
  | (.ok row, t) => (.ok row, { t with next := seq })
  | (.error err, _) => (.error err, db)

/-- A negative limit is no limit. -/
def pull (accountId : String) (cursor limit : ℤ) (db : SqliteDb) : Except Error (List Envelope) :=
  let rows := db.toTables.pullRows accountId cursor
  (if limit < 0 then rows else rows.take limit.toNat).mapM P.envelopeFromRow

def exec (c : Call) (db : SqliteDb) : Except Error c.Ret × SqliteDb :=
  match c with
  | .createAccount id new => db.onTables (fun t => t.createAccount P emailEq id new)
  | .accountByEmail email => (.ok (db.accountByEmail P emailEq email), db)
  | .accountById id => (.ok (db.accountById id), db)
  | .rewrapAccount id new => db.onTables (fun t => (.ok (), t.rewrapAccount id new))
  | .putToken hash accountId kind expiresAt =>
    db.onTables (fun t => t.putToken hash accountId kind expiresAt)
  | .takeToken hash kind => (.ok (db.takeToken now hash kind), db)
  | .consumeToken hash kind =>
    db.onTables (fun t => (.ok (t.consumeToken now hash kind).1, (t.consumeToken now hash kind).2))
  | .revokeAccountTokens accountId =>
    db.onTables (fun t => (.ok (), t.revokeAccountTokens accountId))
  | .putEnvelope accountId envelope => putEnvelope P accountId envelope db
  | .pull accountId cursor limit => (pull P accountId cursor limit db, db)
  | .maxSeq _ => (.ok db.next, db)
  | .putShare ownerId groupId userId wrapped =>
    db.onTables (fun t => t.putShare now ownerId groupId userId wrapped)
  | .sharesForGroup ownerId groupId => (.ok (db.sharesForGroup P ownerId groupId), db)
  | .deleteShare ownerId groupId userId =>
    db.onTables (fun t => (.ok (), t.deleteShare ownerId groupId userId))
  | .sharesForUser userId => (.ok (db.sharesForUser P userId), db)
  | .shareOwner groupId => (.ok (db.shareOwner P groupId), db)
  | .canWriteGroup accountId groupId => (.ok (db.canWriteGroup accountId groupId), db)
  | .touchDevice accountId deviceId name =>
    db.onTables (fun t => t.touchDevice now accountId deviceId name)
  | .devices accountId => (.ok (db.devicesOf P accountId), db)

/-! ## The upsert of a record -/

section PutEnvelope

variable {P} {accountId : String} {e : Envelope} {db : SqliteDb}

/-- Nothing is stored, or what is stored is older. -/
def Supersedes (stored : Option RecordEntry) (c : Clock) : Prop :=
  ∀ r, stored = some r → r.clock < c

instance (stored : Option RecordEntry) (c : Clock) : Decidable (Supersedes stored c) :=
  match stored with
  | none => isTrue (by simp [Supersedes])
  | some r => decidable_of_iff (r.clock < c) (by simp [Supersedes])

theorem supersedes_iff_resolve {stored : Option RecordEntry} {c : Clock} :
    Supersedes stored c ↔
      stored = none ∨ ∃ r, stored = some r ∧ resolve r.clock c = .takeRemote := by
  cases stored with
  | none => simp [Supersedes]
  | some r => simp [Supersedes, resolve_eq_takeRemote]

theorem beats_textGt {excluded stored : RecordEntry} :
    excluded.beats textGt stored = true ↔ stored.clock < excluded.clock := by
  rw [Clock.lt_iff, eq_comm (a := stored.clock.updatedAt)]
  simp only [RecordEntry.beats, textGt, Bool.or_eq_true, Bool.and_eq_true, decide_eq_true_eq,
    RecordEntry.clock, gt_iff_lt]

theorem replaces_textGt {t : Tables} {x : RecordEntry} :
    t.replaces textGt x = true ↔ Supersedes (t.records.find? x.key) x.clock := by
  unfold Tables.replaces
  cases t.records.find? x.key with
  | none => simp [Supersedes]
  | some stored => simp [Supersedes, beats_textGt]

def recordKey (accountId : String) (e : Envelope) : String × String × String :=
  (accountId, e.kind.asStr, e.id)

/-- The account can be referenced, or a row that references it stands already. -/
def Fileable (db : SqliteDb) (accountId : String) (e : Envelope) : Prop :=
  ¬ (db.records.find? (recordKey accountId e) = none ∧ db.accountById accountId = none)

instance : Decidable (Fileable db accountId e) := inferInstanceAs (Decidable (¬ (_ ∧ _)))

theorem fileable_of_account (h : db.accountById accountId ≠ none) : Fileable db accountId e :=
  fun hnot => h hnot.2

theorem putEnvelope_of_not_fileable (h : ¬ Fileable db accountId e) :
    putEnvelope P accountId e db = (.error .db, db) := by
  have hput : db.toTables.putRecord textGt (P.recordEntry accountId e (db.next + 1)) =
      (.error .db, db.toTables) := Tables.putRecord_of_not_fileable h
  simp only [putEnvelope, hput]

theorem putEnvelope_of_fileable (h : Fileable db accountId e) :
    putEnvelope P accountId e db =
      (.ok (if Supersedes (db.records.find? (recordKey accountId e)) e.clock
          then some (db.next + 1) else none),
        { db with
          records := db.upsertRecord textGt (P.recordEntry accountId e (db.next + 1))
          next := db.next + 1 }) := by
  have hfile : db.toTables.Fileable (P.recordEntry accountId e (db.next + 1)) := h
  simp only [putEnvelope, Tables.putRecord_of_fileable hfile, replaces_textGt]
  rfl

theorem putEnvelope_fst (h : Fileable db accountId e) :
    (putEnvelope P accountId e db).1 =
      .ok (if Supersedes (db.records.find? (recordKey accountId e)) e.clock
        then some (db.next + 1) else none) := by
  rw [putEnvelope_of_fileable h]

theorem putEnvelope_next (h : Fileable db accountId e) :
    (putEnvelope P accountId e db).2.next = db.next + 1 := by
  rw [putEnvelope_of_fileable h]

theorem putEnvelope_frame :
    (putEnvelope P accountId e db).2.accounts = db.accounts ∧
      (putEnvelope P accountId e db).2.tokens = db.tokens ∧
      (putEnvelope P accountId e db).2.shares = db.shares ∧
      (putEnvelope P accountId e db).2.devices = db.devices := by
  by_cases h : Fileable db accountId e
  · rw [putEnvelope_of_fileable h]
    exact ⟨rfl, rfl, rfl, rfl⟩
  · rw [putEnvelope_of_not_fileable h]
    exact ⟨rfl, rfl, rfl, rfl⟩

@[simp] theorem putEnvelope_accounts :
    (putEnvelope P accountId e db).2.accounts = db.accounts := putEnvelope_frame.1

@[simp] theorem putEnvelope_shares :
    (putEnvelope P accountId e db).2.shares = db.shares := putEnvelope_frame.2.2.1

/-- The row the envelope takes, with its number, and every other row as it was. -/
theorem find?_putEnvelope (h : Fileable db accountId e) (k : String × String × String) :
    (putEnvelope P accountId e db).2.records.find? k =
      if k = recordKey accountId e ∧ Supersedes (db.records.find? k) e.clock
      then some (P.recordEntry accountId e (db.next + 1)) else db.records.find? k := by
  rw [putEnvelope_of_fileable h, Tables.find?_upsertRecord]
  simp only [replaces_textGt, recordEntry_key, recordEntry_clock, recordKey]
  by_cases hk : k = (accountId, e.kind.asStr, e.id)
  · subst hk
    rfl
  · simp [hk]

theorem find?_putEnvelope_of_ne {k : String × String × String} (hk : k ≠ recordKey accountId e) :
    (putEnvelope P accountId e db).2.records.find? k = db.records.find? k := by
  by_cases h : Fileable db accountId e
  · rw [find?_putEnvelope h, if_neg (fun hk' => hk hk'.1)]
  · rw [putEnvelope_of_not_fileable h]

theorem of_accepted {seq : ℤ} (h : (putEnvelope P accountId e db).1 = .ok (some seq)) :
    Fileable db accountId e ∧ Supersedes (db.records.find? (recordKey accountId e)) e.clock ∧
      seq = db.next + 1 := by
  by_cases hfile : Fileable db accountId e
  · rw [putEnvelope_fst hfile] at h
    split_ifs at h with hsup
    · exact ⟨hfile, hsup, (Option.some.inj (Except.ok.inj h)).symm⟩
    · cases Except.ok.inj h
  · rw [putEnvelope_of_not_fileable hfile] at h
    cases h

theorem next_of_accepted {seq : ℤ} (h : (putEnvelope P accountId e db).1 = .ok (some seq)) :
    (putEnvelope P accountId e db).2.next = seq := by
  obtain ⟨hfile, _, rfl⟩ := of_accepted h
  exact putEnvelope_next hfile

theorem find?_of_accepted {seq : ℤ} (h : (putEnvelope P accountId e db).1 = .ok (some seq)) :
    (putEnvelope P accountId e db).2.records.find? (recordKey accountId e) =
      some (P.recordEntry accountId e seq) := by
  obtain ⟨hfile, hsup, rfl⟩ := of_accepted h
  rw [find?_putEnvelope hfile, if_pos ⟨rfl, hsup⟩]

/-- A number that a losing write took is not given back, and nothing else changes. -/
theorem putEnvelope_stale (h : (putEnvelope P accountId e db).1 = .ok none) :
    (putEnvelope P accountId e db).2 = { db with next := db.next + 1 } := by
  by_cases hfile : Fileable db accountId e
  · have hnot : db.replaces textGt (P.recordEntry accountId e (db.next + 1)) = false := by
      rw [putEnvelope_fst hfile] at h
      split_ifs at h with hsup
      · cases Except.ok.inj h
      · rw [← Bool.not_eq_true, replaces_textGt]
        exact hsup
    rw [putEnvelope_of_fileable hfile, Tables.upsertRecord_of_not_replaces hnot]
  · rw [putEnvelope_of_not_fileable hfile] at h
    cases h

theorem mem_putEnvelope {r : RecordEntry}
    (hr : r ∈ (putEnvelope P accountId e db).2.records.rows) :
    r ∈ db.records.rows ∨
      (r = P.recordEntry accountId e (db.next + 1) ∧ Fileable db accountId e ∧
        Supersedes (db.records.find? (recordKey accountId e)) e.clock) := by
  by_cases h : Fileable db accountId e
  · have hfind := KeyedTable.find?_isSome_of_mem hr
    rw [find?_putEnvelope h] at hfind
    split_ifs at hfind with hc
    · exact Or.inr ⟨(Option.some.inj hfind).symm, h, by rw [← hc.1]; exact hc.2⟩
    · exact Or.inl (KeyedTable.find?_eq_some.mp hfind).1
  · rw [putEnvelope_of_not_fileable h] at hr
    exact Or.inl hr

end PutEnvelope

end SqliteStore
end RemotierSync
