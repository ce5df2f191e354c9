import RemotierSync.Queries

/-!
# The Postgres backend

The same queries over the same tables, with a sequence for the change log. `put_envelope` is one
statement: it draws its number when it starts and is seen by others when it commits, and a number
once drawn is never given back. Of two statements on one row the second waits for the first, so
the comparison with the stored row belongs to the commit. How text is compared is left to the
database. No text holds a U+0000: a call with one fails and draws nothing.
-/

namespace RemotierSync

/-- A sequence object: a new one holds its first value without having returned it. -/
structure RecordSeq where
  lastValue : ℤ
  isCalled : Bool
deriving DecidableEq, Repr

namespace RecordSeq

def start : RecordSeq := ⟨1, false⟩

def peek (s : RecordSeq) : ℤ := if s.isCalled then s.lastValue + 1 else s.lastValue

def nextval (s : RecordSeq) : ℤ × RecordSeq := (s.peek, ⟨s.peek, true⟩)

end RecordSeq

structure PostgresDb extends Tables where
  recordSeq : RecordSeq

namespace PostgresDb

def migrated : PostgresDb := { Tables.migrated with recordSeq := .start }

def onTables {α : Type} (f : Tables → Except Error α × Tables) (db : PostgresDb) :
    Except Error α × PostgresDb :=
  ((f db.toTables).1, { (f db.toTables).2 with recordSeq := db.recordSeq })

end PostgresDb

/-- A `put_envelope` that has drawn its number and not committed. -/
structure PutStatement where
  accountId : String
  envelope : Envelope
  seq : ℤ
deriving DecidableEq

def PutStatement.row (P : Platform) (st : PutStatement) : RecordEntry :=
  P.recordEntry st.accountId st.envelope st.seq

namespace PostgresStore

variable (P : Platform) (textGt : String → String → Bool) (now : ℤ)

def emailEq (a b : String) : Bool := a = b

def drawPut (accountId : String) (e : Envelope) (db : PostgresDb) : PutStatement × PostgresDb :=
  (⟨accountId, e, db.recordSeq.nextval.1⟩, { db with recordSeq := db.recordSeq.nextval.2 })

def commitPut (st : PutStatement) (db : PostgresDb) : Except Error (Option ℤ) × PostgresDb :=
  db.onTables (fun t => t.putRecord textGt (st.row P))

def putEnvelope (accountId : String) (e : Envelope) (db : PostgresDb) :
    Except Error (Option ℤ) × PostgresDb :=
  let (st, db) := drawPut accountId e db
  commitPut P textGt st db

/-- A negative limit is an error. -/
def pull (accountId : String) (cursor limit : ℤ) (db : PostgresDb) :
    Except Error (List Envelope) :=
  if limit < 0 then .error .db
  else ((db.pullRows accountId cursor).take limit.toNat).mapM P.envelopeFromRow

def execute (c : Call) (db : PostgresDb) : Except Error c.Ret × PostgresDb :=
  match c with
  | .createAccount id new => db.onTables (fun t => t.createAccount P emailEq id new)
  | .accountByEmail email => (.ok (db.accountByEmail P emailEq email), db)
  | .accountById id => (.ok (db.accountById id), db)
  | .rewrapAccount id new => db.onTables (fun t => (.ok (), t.rewrapAccount id new))
  | .putToken hash accountId kind expiresAt =>
    db.onTables (fun t => t.putToken hash accountId kind expiresAt)
  | .takeToken hash kind => (.ok (db.takeToken now hash kind), db)
  | .consumeToken hash kind =>
    db.onTables (fun t => (.ok (t.consumeToken now hash kind).1, (t.consumeToken now hash kind).2))
  | .revokeAccountTokens accountId =>
    db.onTables (fun t => (.ok (), t.revokeAccountTokens accountId))
  | .putEnvelope accountId envelope => putEnvelope P textGt accountId envelope db
  | .pull accountId cursor limit => (pull P accountId cursor limit db, db)
  | .maxSeq _ => (.ok db.recordSeq.lastValue, db)
  | .putShare ownerId groupId userId wrapped =>
    db.onTables (fun t => t.putShare now ownerId groupId userId wrapped)
  | .sharesForGroup ownerId groupId => (.ok (db.sharesForGroup P ownerId groupId), db)
  | .deleteShare ownerId groupId userId =>
    db.onTables (fun t => (.ok (), t.deleteShare ownerId groupId userId))
  | .sharesForUser userId => (.ok (db.sharesForUser P userId), db)
  | .shareOwner groupId => (.ok (db.shareOwner P groupId), db)
  | .canWriteGroup accountId groupId => (.ok (db.canWriteGroup accountId groupId), db)
  | .touchDevice accountId deviceId name =>
    db.onTables (fun t => t.touchDevice now accountId deviceId name)
  | .devices accountId => (.ok (db.devicesOf P accountId), db)

/-- A text with a U+0000 is refused when it is bound, before the statement runs. -/
def exec (c : Call) (db : PostgresDb) : Except Error c.Ret × PostgresDb :=
  if c.NulFree P then execute P textGt now c db else (.error .db, db)

/-! ## What a call does -/

variable {P} {textGt} {now} {st : PutStatement} {db : PostgresDb} {c : Call}

theorem exec_of_nulFree (h : c.NulFree P) : exec P textGt now c db = execute P textGt now c db :=
  if_pos h

theorem exec_of_not_nulFree (h : ¬ c.NulFree P) : exec P textGt now c db = (.error .db, db) :=
  if_neg h

theorem exec_induction {motive : PostgresDb → Prop} (hrefused : motive db)
    (hexecute : motive (execute P textGt now c db).2) : motive (exec P textGt now c db).2 := by
  by_cases h : c.NulFree P
  · rwa [exec_of_nulFree h]
  · rwa [exec_of_not_nulFree h]

theorem execute_of_exec {r : c.Ret} {db' : PostgresDb}
    (h : exec P textGt now c db = (.ok r, db')) : execute P textGt now c db = (.ok r, db') := by
  by_cases hfree : c.NulFree P
  · rwa [exec_of_nulFree hfree] at h
  · rw [exec_of_not_nulFree hfree] at h
    cases (Prod.mk.inj h).1

/-! ## What a commit leaves -/

/-- The commit puts the statement's row in the table: the account exists, and the row stored
under the key, if there is one, is beaten. -/
def Stores (P : Platform) (textGt : String → String → Bool) (st : PutStatement)
    (db : PostgresDb) : Prop :=
  db.toTables.Fileable (st.row P) ∧
    db.replaces textGt (st.row P) = true

instance : Decidable (Stores P textGt st db) :=
  inferInstanceAs (Decidable (¬ (_ ∧ _) ∧ _ = true))

@[simp] theorem drawPut_seq {accountId : String} {e : Envelope} :
    (drawPut accountId e db).1.seq = db.recordSeq.peek := rfl

@[simp] theorem drawPut_peek {accountId : String} {e : Envelope} :
    (drawPut accountId e db).2.recordSeq.peek = db.recordSeq.peek + 1 := rfl

@[simp] theorem commitPut_recordSeq :
    (commitPut P textGt st db).2.recordSeq = db.recordSeq := rfl

theorem mem_commitPut {r : RecordEntry} (hr : r ∈ (commitPut P textGt st db).2.records.rows) :
    r ∈ db.records.rows ∨ (r = st.row P ∧ Stores P textGt st db) := by
  by_cases hfile : db.toTables.Fileable (st.row P)
  · have hrows : (commitPut P textGt st db).2.records =
        db.toTables.upsertRecord textGt (st.row P) := by
      simp only [commitPut, PostgresDb.onTables, Tables.putRecord_of_fileable hfile]
    rw [hrows] at hr
    rcases Tables.mem_upsertRecord hr with hr | ⟨rfl, hreplaces⟩
    · exact Or.inl hr
    · exact Or.inr ⟨rfl, hfile, hreplaces⟩
  · simp only [commitPut, PostgresDb.onTables, Tables.putRecord_of_not_fileable hfile] at hr
    exact Or.inl hr

section PutEnvelope

variable {accountId : String} {e : Envelope}

theorem putEnvelope_of_fileable
    (h : db.toTables.Fileable (P.recordEntry accountId e db.recordSeq.peek)) :
    putEnvelope P textGt accountId e db =
      (.ok (if db.replaces textGt (P.recordEntry accountId e db.recordSeq.peek)
          then some db.recordSeq.peek else none),
        { db with
          records := db.upsertRecord textGt (P.recordEntry accountId e db.recordSeq.peek)
          recordSeq := db.recordSeq.nextval.2 }) := by
  simp only [putEnvelope, commitPut, PostgresDb.onTables, drawPut, PutStatement.row,
    RecordSeq.nextval, Tables.putRecord_of_fileable h]
  rfl

/-- The number of a statement that fails is drawn all the same. -/
theorem putEnvelope_of_not_fileable
    (h : ¬ db.toTables.Fileable (P.recordEntry accountId e db.recordSeq.peek)) :
    putEnvelope P textGt accountId e db =
      (.error .db, { db with recordSeq := db.recordSeq.nextval.2 }) := by
  simp only [putEnvelope, commitPut, PostgresDb.onTables, drawPut, PutStatement.row,
    RecordSeq.nextval, Tables.putRecord_of_not_fileable h]

end PutEnvelope

end PostgresStore
end RemotierSync
