import RemotierSync.Sqlite
import RemotierSync.Postgres
import RemotierSync.Reference

/-!
# Ties under a collation

Postgres compares text under the collation of its database, a client compares the bytes. The two
answer alike as long as the clocks differ, and when they are equal as long as the collation orders
the two devices as their bytes do. So a database whose collation is not the order of the bytes
settles some ties on another version than the devices do. And an envelope that Postgres cannot hold,
because one of its texts has a U+0000, replaces nothing, however late it is.
-/

namespace RemotierSync

/-- A total order of texts in which only equal texts are equal. -/
structure Collation where
  gt : String → String → Bool
  irrefl : ∀ a, gt a a = false
  trans : ∀ {a b c}, gt a b = true → gt b c = true → gt a c = true
  total : ∀ {a b}, a ≠ b → gt a b = true ∨ gt b a = true

namespace Collation

def ofKey {κ : Type} [LinearOrder κ] (key : String → κ) (h : Function.Injective key) :
    Collation where
  gt a b := key b < key a
  irrefl a := by simp
  trans hab hbc := by
    rw [decide_eq_true_eq] at hab hbc ⊢
    exact hbc.trans hab
  total hne := by
    rw [decide_eq_true_eq, decide_eq_true_eq]
    exact (lt_or_gt_of_ne (fun hkey => hne (h hkey))).symm

def bytes : Collation := ofKey id Function.injective_id

def lettersFirst : Collation :=
  ofKey (fun s => (toLex (String.ofList (s.toList.map Char.toLower), s) : String ×ₗ String))
    (fun _ _ h => congrArg Prod.snd (toLex.injective h))

end Collation

namespace PostgresStore

variable (P : Platform) (c : Collation) (now : ℤ) (accountId : String) (e : Envelope)
  (db : PostgresDb) (row : RecordEntry)

/-- What the call does with an envelope whose key is taken by a row: it replaces the row exactly if
a client that holds the row's version would take the envelope. -/
structure AgreesOn : Prop where
  takes : resolve row.clock e.clock = .takeRemote →
    (exec P c.gt now (.putEnvelope accountId e) db).1 = .ok (some db.recordSeq.peek) ∧
      (exec P c.gt now (.putEnvelope accountId e) db).2.records.find? row.key =
        some (P.recordEntry accountId e db.recordSeq.peek)
  keeps : resolve row.clock e.clock = .keepLocal →
    (∀ seq, (exec P c.gt now (.putEnvelope accountId e) db).1 ≠ .ok (some seq)) ∧
      (exec P c.gt now (.putEnvelope accountId e) db).2.records.find? row.key = some row

/-- The collation orders the devices of the row and of the envelope as their bytes do. -/
def OrdersBytewise : Prop := c.gt e.deviceId row.deviceId = true ↔ row.deviceId < e.deviceId

instance : Decidable (OrdersBytewise c e row) := inferInstanceAs (Decidable (_ = true ↔ _ < _))

/-- If Postgres can hold the envelope and the clocks are equal, the devices are in the order of
their bytes; if it cannot, the envelope is not the later one. -/
def Settles : Prop :=
  ((Call.putEnvelope accountId e).NulFree P → row.updatedAt = e.updatedAt →
    OrdersBytewise c e row) ∧
  (¬ (Call.putEnvelope accountId e).NulFree P → ¬ row.clock < e.clock)

instance : Decidable (Settles P c accountId e row) := inferInstanceAs (Decidable (_ ∧ _))

variable {P} {c} {now} {accountId} {e} {db} {row}

theorem putEnvelope_of_stored (textGt : String → String → Bool)
    (h : db.records.find? (accountId, e.kind.asStr, e.id) = some row) :
    (putEnvelope P textGt accountId e db).1 =
        .ok (if (P.recordEntry accountId e db.recordSeq.peek).beats textGt row
          then some db.recordSeq.peek else none) ∧
      (putEnvelope P textGt accountId e db).2.records.find? row.key =
        some (if (P.recordEntry accountId e db.recordSeq.peek).beats textGt row
          then P.recordEntry accountId e db.recordSeq.peek else row) := by
  have hfile : db.toTables.Fileable (P.recordEntry accountId e db.recordSeq.peek) := by
    rintro ⟨hnone, _⟩
    exact absurd (h.symm.trans hnone) (by simp)
  have hreplaces : db.replaces textGt (P.recordEntry accountId e db.recordSeq.peek) =
      (P.recordEntry accountId e db.recordSeq.peek).beats textGt row := by
    rw [Tables.replaces, recordEntry_key, h]
    rfl
  have hkey : row.key = (P.recordEntry accountId e db.recordSeq.peek).key :=
    KeyedTable.find?_key_eq h
  rw [putEnvelope_of_fileable hfile]
  refine ⟨by rw [hreplaces], ?_⟩
  rw [Tables.find?_upsertRecord, hreplaces]
  by_cases hbeats : (P.recordEntry accountId e db.recordSeq.peek).beats textGt row = true
  · rw [if_pos ⟨hkey, hbeats⟩, if_pos hbeats]
  · rw [if_neg (fun hboth => hbeats hboth.2), if_neg hbeats, hkey, recordEntry_key, h]

/-- The statement and the client compare the same, and break a tie by the collation and by the
bytes. -/
theorem beats_iff {seq : ℤ} : (P.recordEntry accountId e seq).beats c.gt row = true ↔
    row.updatedAt < e.updatedAt ∨
      row.updatedAt = e.updatedAt ∧ c.gt e.deviceId row.deviceId = true := by
  rw [eq_comm (a := row.updatedAt), RecordEntry.beats, Bool.or_eq_true, Bool.and_eq_true,
    decide_eq_true_iff, decide_eq_true_iff]
  rfl

theorem takeRemote_iff : resolve row.clock e.clock = .takeRemote ↔
    row.updatedAt < e.updatedAt ∨ row.updatedAt = e.updatedAt ∧ row.deviceId < e.deviceId := by
  rw [resolve_eq_takeRemote, Clock.lt_iff]
  rfl

theorem beats_iff_takeRemote {seq : ℤ} :
    ((P.recordEntry accountId e seq).beats c.gt row = true ↔
        resolve row.clock e.clock = .takeRemote) ↔
      (row.updatedAt = e.updatedAt → OrdersBytewise c e row) := by
  rw [beats_iff, takeRemote_iff]
  constructor
  · intro hbeats htie
    rw [htie] at hbeats
    simpa only [OrdersBytewise, lt_irrefl, false_or, true_and] using hbeats
  · intro htie
    apply or_congr Iff.rfl
    apply and_congr_right
    exact htie

theorem agreesOn_iff_beats (hfree : (Call.putEnvelope accountId e).NulFree P)
    (h : db.records.find? (accountId, e.kind.asStr, e.id) = some row) :
    AgreesOn P c now accountId e db row ↔
      ((P.recordEntry accountId e db.recordSeq.peek).beats c.gt row = true ↔
        resolve row.clock e.clock = .takeRemote) := by
  have hexec : exec P c.gt now (.putEnvelope accountId e) db =
      putEnvelope P c.gt accountId e db := exec_of_nulFree hfree
  obtain ⟨hanswer, hrow⟩ := putEnvelope_of_stored (P := P) c.gt h
  constructor
  · intro hagrees
    cases hresolve : resolve row.clock e.clock with
    | takeRemote =>
      have htakes := (hagrees.takes hresolve).1
      rw [hexec, hanswer] at htakes
      refine ⟨fun _ => rfl, fun _ => ?_⟩
      by_contra hbeats
      rw [if_neg hbeats] at htakes
      cases Except.ok.inj htakes
    | keepLocal =>
      have hkeeps := (hagrees.keeps hresolve).1
      rw [hexec, hanswer] at hkeeps
      refine ⟨fun hbeats => ?_, fun h => Resolution.noConfusion h⟩
      rw [if_pos hbeats] at hkeeps
      exact absurd rfl (hkeeps _)
  · intro hbeats
    rw [← hexec] at hanswer hrow
    refine ⟨?_, ?_⟩
    · intro htake
      rw [if_pos (hbeats.mpr htake)] at hanswer hrow
      exact ⟨hanswer, hrow⟩
    · intro hkeep
      have hnot : ¬ (P.recordEntry accountId e db.recordSeq.peek).beats c.gt row = true := by
        rw [hbeats, hkeep]
        exact Resolution.noConfusion
      rw [if_neg hnot] at hanswer hrow
      refine ⟨fun seq => ?_, hrow⟩
      rw [hanswer]
      exact fun hok => nomatch Except.ok.inj hok

/-- An envelope that cannot be held leaves the row as it is. -/
theorem agreesOn_iff_of_nul (hnul : ¬ (Call.putEnvelope accountId e).NulFree P)
    (h : db.records.find? (accountId, e.kind.asStr, e.id) = some row) :
    AgreesOn P c now accountId e db row ↔ ¬ row.clock < e.clock := by
  have hexec : exec P c.gt now (.putEnvelope accountId e) db = (.error .db, db) :=
    exec_of_not_nulFree hnul
  rw [← resolve_eq_takeRemote]
  constructor
  · intro hagrees htake
    have htakes := (hagrees.takes htake).1
    rw [hexec] at htakes
    cases htakes
  · intro hnot
    refine ⟨fun htake => absurd htake hnot, fun _ => ?_⟩
    have hkey : row.key = (accountId, e.kind.asStr, e.id) := KeyedTable.find?_key_eq h
    rw [hexec, hkey]
    refine ⟨?_, h⟩
    rintro seq hok
    cases hok

/-- The call agrees with the clients exactly if it settles the pair as their bytes do. -/
theorem agreesOn_iff (P : Platform) (c : Collation) (now : ℤ) (accountId : String) (e : Envelope)
    (db : PostgresDb) (row : RecordEntry)
    (h : db.records.find? (accountId, e.kind.asStr, e.id) = some row) :
    AgreesOn P c now accountId e db row ↔ Settles P c accountId e row := by
  by_cases hfree : (Call.putEnvelope accountId e).NulFree P
  · rw [agreesOn_iff_beats hfree h, beats_iff_takeRemote]
    exact ⟨fun hties => ⟨fun _ => hties, fun hnul => absurd hfree hnul⟩, fun h => h.1 hfree⟩
  · rw [agreesOn_iff_of_nul hfree h]
    exact ⟨fun hold => ⟨fun hheld => absurd hheld hfree, fun _ => hold⟩, fun h => h.2 hfree⟩

section Runs

open Reference

def upperDevice : Envelope := { host "h" .personal none 5 with deviceId := "B" }

def lowerDevice : Envelope := { host "h" .personal none 5 with deviceId := "a" }

def adaTables : PostgresDb :=
  (exec .reference Collation.lettersFirst.gt 0 (.createAccount "ada"
    ⟨"ada@example.com", "", "", "", "", "", "", ""⟩) .migrated).2

def heldByUpper : PostgresDb :=
  (exec .reference Collation.lettersFirst.gt 0 (.putEnvelope "ada" upperDevice) adaTables).2

theorem heldByUpper_row : heldByUpper.records.find? ("ada", "host", "h") =
    some (Platform.reference.recordEntry "ada" upperDevice 1) := by decide +kernel

/-- "B" comes before "a" in bytes, and after it in the order of letters. -/
theorem tie_is_settled_otherwise :
    ¬ ∀ (P : Platform) (c : Collation) (now : ℤ) (accountId : String) (e : Envelope)
      (db : PostgresDb) (row : RecordEntry),
        db.records.find? (accountId, e.kind.asStr, e.id) = some row →
          AgreesOn P c now accountId e db row := by
  intro h
  have htakes := (h .reference Collation.lettersFirst 0 "ada" lowerDevice heldByUpper _
    heldByUpper_row).takes (by decide +kernel)
  exact absurd htakes.1 (by decide +kernel)

/-- A later version replaces the row under that collation too. -/
theorem later_version_agrees :
    AgreesOn .reference Collation.lettersFirst 0 "ada" { lowerDevice with updatedAt := 6 }
      heldByUpper (Platform.reference.recordEntry "ada" upperDevice 1) :=
  (agreesOn_iff .reference Collation.lettersFirst 0 "ada" { lowerDevice with updatedAt := 6 }
    heldByUpper _ heldByUpper_row).mpr (by decide +kernel)

end Runs

end PostgresStore
end RemotierSync
