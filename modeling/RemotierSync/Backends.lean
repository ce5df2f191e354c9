import RemotierSync.Addresses
import RemotierSync.Collation
import RemotierSync.WellFormed
import Mathlib.Data.List.TakeWhile

/-!
# Two backends, one store

The queries of the two backends side by side, on a database each that was migrated and then given
the same calls. The tables stay the same and the next number of the counter stays the next number
of the sequence, which a losing write moves in both. An address is compared without regard to case
by one and exactly by the other; both find the same account, because what is stored and what is
looked up has been lowered. A text with a U+0000, which Postgres does not take, is not sent.
-/

namespace RemotierSync

/-- What a database makes of that which a query leaves open: the row of a `LIMIT 1` without an
order, and the order of rows where no `ORDER BY` decides. -/
structure RowChoice where
  limitOne : List ShareEntry → Option ShareEntry
  mem_of_limitOne : ∀ {rows row}, limitOne rows = some row → row ∈ rows
  limitOne_eq_none : ∀ {rows}, limitOne rows = none → rows = []
  scanShares : List ShareEntry → List ShareEntry
  scanShares_perm : ∀ rows, (scanShares rows).Perm rows
  scanDevices : List DeviceEntry → List DeviceEntry
  scanDevices_perm : ∀ rows, (scanDevices rows).Perm rows

/-- The same crates over another database. -/
def Platform.choosing (P : Platform) (choice : RowChoice) : Platform :=
  { P with
    limitOne := choice.limitOne
    mem_of_limitOne := choice.mem_of_limitOne
    limitOne_eq_none := choice.limitOne_eq_none
    scanShares := choice.scanShares
    scanShares_perm := choice.scanShares_perm
    scanDevices := choice.scanDevices
    scanDevices_perm := choice.scanDevices_perm }

structure TimedCall where
  now : ℤ
  call : Call
deriving DecidableEq

namespace Backends

variable (P : Platform) (choice : RowChoice)

def sqliteStep (db : SqliteDb) (c : TimedCall) : SqliteDb := (SqliteStore.exec P c.now c.call db).2

def postgresStep (db : PostgresDb) (c : TimedCall) : PostgresDb :=
  (PostgresStore.exec (P.choosing choice) Collation.bytes.gt c.now c.call db).2

def sqliteReached (calls : List TimedCall) : SqliteDb :=
  History.run (sqliteStep P) .migrated calls

def postgresReached (calls : List TimedCall) : PostgresDb :=
  History.run (postgresStep P choice) .migrated calls

/-- A call whose answers are compared: a put names an account that exists, a pull has a positive
limit, and the number that the counter has reached is not asked for. -/
def isCompared (db : SqliteDb) : Call → Bool
  | .putEnvelope accountId _ => (db.accountById accountId).isSome
  | .pull _ _ limit => 0 < limit
  | .maxSeq _ => false
  | _ => true

def Comparable (db : SqliteDb) (c : TimedCall) : Prop :=
  c.call.NulFree P ∧ isCompared db c.call = true

instance (db : SqliteDb) (c : TimedCall) : Decidable (Comparable P db c) :=
  inferInstanceAs (Decidable (_ ∧ _))

/-- The same rows in some order. -/
def SameRows {α : Type} (r r' : Except Error (List α)) : Prop :=
  ∃ rows rows', r = .ok rows ∧ r' = .ok rows' ∧ rows.Perm rows'

/-- Both find no row of the group, or each the owner of one. -/
def SameGroup (t : Tables) (groupId : String) (r r' : Except Error (Option String)) : Prop :=
  ∃ found found', r = .ok found ∧ r' = .ok found' ∧ (found = none ↔ found' = none) ∧
    ∀ owner, owner ∈ found ∨ owner ∈ found' →
      ∃ s ∈ t.shares.rows, s.groupId = groupId ∧ s.ownerId = owner

/-- The answers are the same, as far as the query determines its answer. -/
def Agree (t : Tables) : (c : Call) → Except Error c.Ret → Except Error c.Ret → Prop
  | .sharesForGroup .., r, r' => SameRows r r'
  | .sharesForUser .., r, r' => SameRows r r'
  | .devices .., r, r' => SameRows r r'
  | .shareOwner groupId, r, r' => SameGroup t groupId r r'
  | _, r, r' => r = r'

/-- A text in which `COLLATE NOCASE` ignores nothing: no ASCII letter in upper case, no U+0000. -/
def Plain (s : String) : Prop := toAsciiLowercase s = s ∧ '\x00' ∉ s.toList

/-- The tables are the same and so is the number that the next write draws. -/
structure Simulates (db : SqliteDb) (pg : PostgresDb) : Prop where
  tables : pg.toTables = db.toTables
  number : pg.recordSeq.peek = db.next + 1
  plain : ∀ a ∈ db.accounts.rows, Plain a.email

variable {P} {choice} {db : SqliteDb} {pg : PostgresDb}

theorem simulates_migrated : Simulates .migrated .migrated where
  tables := rfl
  number := rfl
  plain := by simp [SqliteDb.migrated, Tables.migrated]

/-! ## Addresses -/

theorem nocase_of_plain {s : String} (h : Plain s) :
    SqliteStore.nocase s = (s.utf8ByteSize, s.toList) := by
  have hwhole : s.toList.takeWhile (· ≠ '\x00') = s.toList := by
    apply List.takeWhile_eq_self_iff.mpr
    intro c hc
    exact decide_eq_true (ne_of_mem_of_not_mem hc h.2)
  have hlower : s.toList.map Char.toLower = s.toList := by
    rw [← String.toList_ofList (l := s.toList.map Char.toLower)]
    exact congrArg String.toList h.1
  rw [SqliteStore.nocase, hwhole, hlower]

theorem emailEq_of_plain {a b : String} (ha : Plain a) (hb : Plain b) :
    SqliteStore.emailEq a b = PostgresStore.emailEq a b := by
  rw [Bool.eq_iff_iff, SqliteStore.emailEq_iff, nocase_of_plain ha, nocase_of_plain hb,
    PostgresStore.emailEq, decide_eq_true_iff, Prod.mk_inj, String.toList_inj]
  exact ⟨fun h => h.2, fun h => ⟨congrArg String.utf8ByteSize h, h⟩⟩

section Accounts

variable {t : Tables} (ht : ∀ a ∈ t.accounts.rows, Plain a.email)

include ht

theorem accountByEmail_eq {email : String} (hemail : Plain (Addresses.lowered P email)) :
    t.accountByEmail P SqliteStore.emailEq email =
      t.accountByEmail P PostgresStore.emailEq email := by
  rw [Tables.accountByEmail, Tables.accountByEmail, ← List.head?_filter, ← List.head?_filter]
  apply congrArg List.head?
  apply List.filter_congr
  intro a ha
  exact emailEq_of_plain (ht a ha) hemail

theorem free_iff (id : String) {email : String} (hemail : Plain (Addresses.lowered P email)) :
    t.Free P SqliteStore.emailEq id email ↔ t.Free P PostgresStore.emailEq id email := by
  apply forall₂_congr
  intro a ha
  have hsame := emailEq_of_plain (ht a ha) hemail
  rw [Addresses.lowered] at hsame
  rw [hsame]

theorem createAccount_eq (id : String) {new : NewAccount}
    (hemail : Plain (Addresses.lowered P new.email)) :
    t.createAccount P SqliteStore.emailEq id new =
      t.createAccount P PostgresStore.emailEq id new := by
  by_cases hfree : t.Free P SqliteStore.emailEq id new.email
  · rw [Tables.createAccount_of_free hfree,
      Tables.createAccount_of_free ((free_iff ht id hemail).mp hfree)]
  · rw [Tables.createAccount_of_not_free hfree,
      Tables.createAccount_of_not_free (mt (free_iff ht id hemail).mpr hfree)]

theorem plain_createAccount (id : String) {new : NewAccount}
    (hemail : Plain (Addresses.lowered P new.email)) :
    ∀ a ∈ (t.createAccount P SqliteStore.emailEq id new).2.accounts.rows, Plain a.email := by
  by_cases hfree : t.Free P SqliteStore.emailEq id new.email
  · rw [Tables.createAccount_of_free hfree]
    intro a ha
    rw [Tables.rows_of_free hfree, List.mem_append, List.mem_singleton] at ha
    rcases ha with ha | rfl
    · exact ht a ha
    · exact hemail
  · rw [Tables.createAccount_of_not_free hfree]
    exact ht

end Accounts

theorem plain_exec (hlower : Addresses.LowersAscii P.toLowercase)
    (h : ∀ a ∈ db.accounts.rows, Plain a.email) (now : ℤ) {c : Call} (hc : c.NulFree P) :
    ∀ a ∈ (SqliteStore.exec P now c db).2.accounts.rows, Plain a.email := by
  cases c with
  | createAccount id new =>
    have hemail : '\x00' ∉ (Addresses.lowered P new.email).toList :=
      hc _ (List.mem_cons_of_mem _ List.mem_cons_self)
    exact plain_createAccount h id ⟨hlower.lowered _, hemail⟩
  | rewrapAccount id new =>
    intro a ha
    obtain ⟨old, hold, rfl⟩ := Tables.mem_rewrapAccount.mp ha
    split_ifs
    · exact h old hold
    · exact h old hold
  | _ =>
    rw [(SqliteStore.exec_frame P now _ db).accounts (by simp [SqliteStore.writes])]
    exact h

/-! ## One call -/

theorem putEnvelope_agree {accountId : String} {e : Envelope} (h : Simulates db pg)
    (haccount : (db.accountById accountId).isSome = true) :
    (SqliteStore.putEnvelope P accountId e db).1 =
        (PostgresStore.putEnvelope (P.choosing choice) Collation.bytes.gt accountId e pg).1 ∧
      (PostgresStore.putEnvelope (P.choosing choice) Collation.bytes.gt accountId e pg).2.toTables =
        (SqliteStore.putEnvelope P accountId e db).2.toTables ∧
      (PostgresStore.putEnvelope (P.choosing choice) Collation.bytes.gt accountId
        e pg).2.recordSeq.peek = (SqliteStore.putEnvelope P accountId e db).2.next + 1 := by
  obtain ⟨t, recordSeq⟩ := pg
  obtain rfl : t = db.toTables := h.tables
  have hnumber : recordSeq.peek = db.next + 1 := h.number
  have hfile : db.toTables.Fileable (P.recordEntry accountId e (db.next + 1)) :=
    SqliteStore.fileable_of_account (Option.isSome_iff_ne_none.mp haccount)
  have hsqlite : SqliteStore.putEnvelope P accountId e db =
      (.ok (if db.replaces SqliteStore.textGt (P.recordEntry accountId e (db.next + 1))
          then some (db.next + 1) else none),
        { db with
          records := db.upsertRecord SqliteStore.textGt (P.recordEntry accountId e (db.next + 1))
          next := db.next + 1 }) := by
    simp only [SqliteStore.putEnvelope, Tables.putRecord_of_fileable hfile]
    rfl
  have hpostgres : PostgresStore.putEnvelope (P.choosing choice) Collation.bytes.gt accountId e
      ⟨db.toTables, recordSeq⟩ = _ :=
    PostgresStore.putEnvelope_of_fileable (by rw [hnumber]; exact hfile)
  rw [hsqlite, hpostgres]
  dsimp only
  rw [hnumber]
  refine ⟨rfl, rfl, ?_⟩
  rw [← hnumber]
  rfl

theorem onTables_agree {α : Type} {f f' : Tables → Except Error α × Tables} (h : Simulates db pg)
    (hf : f db.toTables = f' db.toTables)
    (hplain : ∀ a ∈ (f db.toTables).2.accounts.rows, Plain a.email) :
    (db.onTables f).1 = (pg.onTables f').1 ∧ Simulates (db.onTables f).2 (pg.onTables f').2 := by
  obtain ⟨t, recordSeq⟩ := pg
  obtain rfl : t = db.toTables := h.tables
  refine ⟨congrArg Prod.fst hf, ?_, h.number, hplain⟩
  exact congrArg Prod.snd hf.symm

/-- Rows that were scanned in another order are mapped to the same in another order. -/
theorem sameRows_scanShares (rows : List ShareEntry) (f : ShareEntry → Option ShareRow) :
    SameRows (.ok ((P.scanShares rows).filterMap f))
      (.ok (((P.choosing choice).scanShares rows).filterMap f)) :=
  ⟨_, _, rfl, rfl,
    ((P.scanShares_perm rows).trans ((P.choosing choice).scanShares_perm rows).symm).filterMap f⟩

theorem devicesOf_perm (P : Platform) (t : Tables) (accountId : String) :
    (t.devicesOf P accountId).Perm
      ((t.devices.rows.filter (fun d => d.accountId = accountId)).map
        (fun d => ⟨d.deviceId, d.name, d.lastSeen⟩)) :=
  ((List.perm_insertionSort _ _).trans (P.scanDevices_perm _)).map _

theorem sameRows_devices (t : Tables) (accountId : String) :
    SameRows (.ok (t.devicesOf P accountId)) (.ok (t.devicesOf (P.choosing choice) accountId)) :=
  ⟨_, _, rfl, rfl, (devicesOf_perm P t accountId).trans
    (devicesOf_perm (P.choosing choice) t accountId).symm⟩

theorem sameGroup_shareOwner (t : Tables) (groupId : String) :
    SameGroup t groupId (.ok (t.shareOwner P groupId))
      (.ok (t.shareOwner (P.choosing choice) groupId)) := by
  refine ⟨_, _, rfl, rfl, ?_, ?_⟩
  · rw [Tables.shareOwner_eq_none, Tables.shareOwner_eq_none]
  · rintro owner (howner | howner)
    · exact Tables.shareOwner_eq_some howner
    · exact Tables.shareOwner_eq_some howner

/-- One call, made of databases that hold the same. -/
theorem exec_agree (hlower : Addresses.LowersAscii P.toLowercase) (h : Simulates db pg)
    {c : TimedCall} (hc : Comparable P db c) :
    Agree db.toTables c.call (SqliteStore.exec P c.now c.call db).1
        (PostgresStore.exec (P.choosing choice) Collation.bytes.gt c.now c.call pg).1 ∧
      Simulates (sqliteStep P db c) (postgresStep P choice pg c) := by
  obtain ⟨now, c⟩ := c
  obtain ⟨hfree, hc⟩ := hc
  have hplain := plain_exec hlower h.plain now hfree
  have hexec : PostgresStore.exec (P.choosing choice) Collation.bytes.gt now c pg =
      PostgresStore.execute (P.choosing choice) Collation.bytes.gt now c pg :=
    PostgresStore.exec_of_nulFree hfree
  dsimp only [postgresStep]
  rw [hexec]
  obtain ⟨t, recordSeq⟩ := pg
  obtain rfl : t = db.toTables := h.tables
  cases c with
  | createAccount id new =>
    have hemail : Plain (Addresses.lowered P new.email) :=
      ⟨hlower.lowered _, hfree _ (List.mem_cons_of_mem _ List.mem_cons_self)⟩
    exact onTables_agree h (createAccount_eq h.plain id hemail) hplain
  | accountByEmail email =>
    have hemail : Plain (Addresses.lowered P email) :=
      ⟨hlower.lowered _, hfree _ List.mem_cons_self⟩
    exact ⟨congrArg Except.ok (accountByEmail_eq h.plain hemail), h⟩
  | rewrapAccount id new => exact onTables_agree h rfl hplain
  | putToken hash accountId kind expiresAt => exact onTables_agree h rfl hplain
  | consumeToken hash kind => exact onTables_agree h rfl hplain
  | revokeAccountTokens accountId => exact onTables_agree h rfl hplain
  | putEnvelope accountId envelope =>
    obtain ⟨hanswer, htables, hnumber⟩ := putEnvelope_agree (e := envelope) h hc
    exact ⟨hanswer, htables, hnumber, hplain⟩
  | pull accountId cursor limit =>
    refine ⟨?_, h⟩
    have hlimit : ¬ limit < 0 := not_lt.mpr (le_of_lt (of_decide_eq_true hc))
    change SqliteStore.pull P accountId cursor limit db =
      PostgresStore.pull P accountId cursor limit _
    rw [SqliteStore.pull, PostgresStore.pull, if_neg hlimit, if_neg hlimit]
  | maxSeq accountId => exact absurd hc Bool.false_ne_true
  | putShare ownerId groupId userId wrapped => exact onTables_agree h rfl hplain
  | sharesForGroup ownerId groupId => exact ⟨sameRows_scanShares _ _, h⟩
  | deleteShare ownerId groupId userId => exact onTables_agree h rfl hplain
  | sharesForUser userId => exact ⟨sameRows_scanShares _ _, h⟩
  | shareOwner groupId => exact ⟨sameGroup_shareOwner db.toTables groupId, h⟩
  | touchDevice accountId deviceId name => exact onTables_agree h rfl hplain
  | devices accountId => exact ⟨sameRows_devices db.toTables accountId, h⟩
  | _ => exact ⟨rfl, h⟩

/-! ## A run of calls -/

theorem simulates_reached (hlower : Addresses.LowersAscii P.toLowercase) {calls : List TimedCall}
    (h : History.Always (sqliteStep P) .migrated (Comparable P) calls) :
    Simulates (sqliteReached P calls) (postgresReached P choice calls) :=
  History.run_simulation simulates_migrated
    (fun _ _ _ hsim hc => (exec_agree hlower hsim hc).2) h

/-- Every call of a run is answered the same by the two backends. -/
theorem backends_agree (P : Platform) (choice : RowChoice)
    (hlower : Addresses.LowersAscii P.toLowercase) (calls : List TimedCall)
    (h : History.Always (sqliteStep P) .migrated (Comparable P) calls)
    (before after : List TimedCall) (c : TimedCall) (hsplit : calls = before ++ c :: after) :
    Agree (sqliteReached P before).toTables c.call
      (SqliteStore.exec P c.now c.call (sqliteReached P before)).1
      (PostgresStore.exec (P.choosing choice) Collation.bytes.gt c.now c.call
        (postgresReached P choice before)).1 := by
  have hbefore : History.Always (sqliteStep P) .migrated (Comparable P) before := by
    rw [hsplit] at h
    exact History.always_of_append h
  exact (exec_agree hlower (simulates_reached hlower hbefore) (h before c after hsplit)).1

section Runs

def lastFirst : RowChoice where
  limitOne := List.getLast?
  mem_of_limitOne := List.mem_of_getLast?
  limitOne_eq_none := List.getLast?_eq_none_iff.mp
  scanShares := List.reverse
  scanShares_perm := List.reverse_perm
  scanDevices := List.reverse
  scanDevices_perm := List.reverse_perm

/-- An account, a record written twice, the older version last, and another record. -/
def staleWrite : List TimedCall :=
  [⟨0, .createAccount "ada" ⟨"Ada@example.com", "", "", "", "", "", "", ""⟩⟩,
    ⟨1, .putEnvelope "ada" (Reference.sharedHost 5)⟩,
    ⟨2, .putEnvelope "ada" (Reference.sharedHost 4)⟩,
    ⟨3, .putEnvelope "ada" (Reference.host "k" .personal none 4)⟩]

theorem comparable_staleWrite :
    History.Always (sqliteStep Addresses.latin) .migrated (Comparable Addresses.latin)
      (staleWrite ++ [⟨4, .pull "ada" 0 10⟩]) := by
  decide +kernel

theorem staleWrite_pulled_alike :
    (SqliteStore.exec Addresses.latin 4 (.pull "ada" 0 10)
        (sqliteReached Addresses.latin staleWrite)).1 =
      (PostgresStore.exec (Addresses.latin.choosing lastFirst) Collation.bytes.gt 4
        (.pull "ada" 0 10) (postgresReached Addresses.latin lastFirst staleWrite)).1 :=
  backends_agree Addresses.latin lastFirst Addresses.latin_lowersAscii
    (staleWrite ++ [⟨4, .pull "ada" 0 10⟩]) comparable_staleWrite staleWrite []
    ⟨4, .pull "ada" 0 10⟩ rfl

end Runs

end Backends
end RemotierSync
