import RemotierSync.Reference

/-!
# The server and its devices converge

A device merges what it receives by folding `resolve`; the server merges by the condition of its
upsert. Both keep the version with the greatest clock, so on the envelopes of one record they end
with the same version, and the version depends only on which envelopes there were.
-/

namespace RemotierSync.Convergence

open SqliteStore

/-- What a device holds after it has seen one more version. -/
def merge (mine incoming : Envelope) : Envelope :=
  match resolve mine.clock incoming.clock with
  | .keepLocal => mine
  | .takeRemote => incoming

def deviceFold : List Envelope → Option Envelope
  | [] => none
  | e :: rest => some (rest.foldl merge e)

def unnumbered (e : Envelope) : Envelope := { e with seq := 0 }

theorem merge_eq_keep (mine incoming : Envelope) :
    merge mine incoming = LastWrite.keep Envelope.clock mine incoming := by
  unfold merge LastWrite.keep
  cases h : resolve mine.clock incoming.clock with
  | takeRemote => rw [if_pos (resolve_eq_takeRemote.mp h)]
  | keepLocal =>
    rw [if_neg]
    intro hlt
    rw [resolve_eq_takeRemote.mpr hlt] at h
    exact absurd h (by simp)

theorem deviceFold_eq_argmax (es : List Envelope) : deviceFold es = es.argmax Envelope.clock := by
  cases es with
  | nil => rfl
  | cons e rest =>
    have hmerge : merge = LastWrite.keep Envelope.clock := by
      funext mine incoming
      exact merge_eq_keep mine incoming
    rw [deviceFold, hmerge, LastWrite.argmax_cons_eq_foldl_keep]

/-- Equal clocks mean one version. -/
def TiesAgree (es : List Envelope) : Prop :=
  ∀ e ∈ es, ∀ e' ∈ es, e.clock = e'.clock → e.SameVersion e'

instance (es : List Envelope) : Decidable (TiesAgree es) :=
  inferInstanceAs (Decidable (∀ e ∈ es, ∀ e' ∈ es, e.clock = e'.clock → e.SameVersion e'))

theorem deviceFold_congr {es es' : List Envelope} (hties : TiesAgree es)
    (hmem : ∀ e, e ∈ es' ↔ e ∈ es) :
    (deviceFold es').map unnumbered = (deviceFold es).map unnumbered := by
  have hmap (l : List Envelope) :
      (l.argmax Envelope.clock).map unnumbered = (l.map unnumbered).argmax Envelope.clock := by
    rw [LastWrite.argmax_map]
    rfl
  rw [deviceFold_eq_argmax, deviceFold_eq_argmax, hmap, hmap]
  symm
  apply LastWrite.argmax_congr
  · intro x
    simp only [List.mem_map, hmem]
  · intro x hx y hy hclock
    obtain ⟨e, he, rfl⟩ := List.mem_map.mp hx
    obtain ⟨e', he', rfl⟩ := List.mem_map.mp hy
    exact hties e he e' he' hclock

variable {P : Platform} {db : SqliteDb} {writes : List (String × Envelope)}
  {k : String × String × String}

theorem winner_of_empty (hempty : db.records.find? k = none) :
    winner db writes k = deviceFold (envelopesAt k writes) := by
  have hall (c : Clock) : Supersedes (db.records.find? k) c := by
    rw [hempty]
    intro r hr
    exact absurd hr (by simp)
  rw [deviceFold_eq_argmax, winner]
  cases (envelopesAt k writes).argmax Envelope.clock with
  | none => rfl
  | some e => simp [hall]

/-- The row finally stored is the device's version, under some number. -/
theorem find?_puts_eq_deviceFold (hacc : db.accountById k.1 ≠ none)
    (hempty : db.records.find? k = none) :
    ((puts P db writes).records.find? k).map RecordEntry.version =
      (deviceFold (envelopesAt k writes)).map (fun e => P.recordEntry k.1 e 0) := by
  rw [← winner_of_empty hempty]
  rcases find?_puts P writes hacc with ⟨hw, hfind⟩ | ⟨e, seq, hw, _, hfind⟩
  · rw [hw, hfind, hempty]
    rfl
  · rw [hw, hfind]
    rfl

theorem put_isSome_iff {accountId : String} {e : Envelope}
    (hacc : db.accountById accountId ≠ none) :
    ∃ answer, (putEnvelope P accountId e db).1 = .ok answer ∧
      (answer.isSome = true ↔ db.records.find? (recordKey accountId e) = none ∨
        ∃ r, db.records.find? (recordKey accountId e) = some r ∧
          resolve r.clock e.clock = .takeRemote) := by
  refine ⟨_, putEnvelope_fst (fileable_of_account hacc), ?_⟩
  rw [← supersedes_iff_resolve]
  split_ifs with h <;> simp [h]

/-- Every call is answered by the clients' rule, the row finally stored is the version of a
device that saw the same envelopes, and neither depends on their order or repetition. -/
theorem server_and_devices_converge (P : Platform) (db : SqliteDb)
    (writes : List (String × Envelope)) (accountId : String) (kind : RecordKind) (id : String)
    (hacc : db.accountById accountId ≠ none)
    (hempty : db.records.find? (accountId, kind.asStr, id) = none)
    (hties : TiesAgree (envelopesAt (accountId, kind.asStr, id) writes)) :
    let k := (accountId, kind.asStr, id)
    (∀ before e after, writes = before ++ (accountId, e) :: after → recordKey accountId e = k →
      ∃ answer, (putEnvelope P accountId e (puts P db before)).1 = .ok answer ∧
        (answer.isSome = true ↔ (puts P db before).records.find? k = none ∨
          ∃ r, (puts P db before).records.find? k = some r ∧
            resolve r.clock e.clock = .takeRemote)) ∧
    ((puts P db writes).records.find? k).map RecordEntry.version =
      (deviceFold (envelopesAt k writes)).map (fun e => P.recordEntry accountId e 0) ∧
    ∀ writes', (∀ e, e ∈ envelopesAt k writes' ↔ e ∈ envelopesAt k writes) →
      ((puts P db writes').records.find? k).map RecordEntry.version =
        ((puts P db writes).records.find? k).map RecordEntry.version ∧
      (deviceFold (envelopesAt k writes')).map unnumbered =
        (deviceFold (envelopesAt k writes)).map unnumbered := by
  refine ⟨?_, find?_puts_eq_deviceFold hacc hempty, ?_⟩
  · intro before e after _ hkey
    have hkeep : (puts P db before).accountById accountId ≠ none := by
      rwa [Tables.accountById, puts_frame.1]
    rw [← hkey]
    exact put_isSome_iff hkeep
  · intro writes' hmem
    have hdevice := deviceFold_congr hties hmem
    refine ⟨?_, hdevice⟩
    rw [find?_puts_eq_deviceFold hacc hempty, find?_puts_eq_deviceFold hacc hempty]
    have hrow : (fun e => P.recordEntry accountId e 0) =
        (fun e => P.recordEntry accountId e 0) ∘ unnumbered := rfl
    rw [hrow, ← Option.map_map, hdevice, Option.map_map]

/-- One device writes a record twice and sends the older version late and twice, with another
record in between. -/
def exampleWrites : List (String × Envelope) :=
  [("ada", Reference.host "h" .personal none 7), ("ada", Reference.host "other" .personal none 1),
    ("ada", Reference.host "h" .personal none 5), ("ada", Reference.host "h" .personal none 5)]

theorem example_writes_converge :
    let k := ("ada", "host", "h")
    let P := Platform.reference
    let db := Server.reached P Reference.config [Reference.registration "ada"]
    ((puts P db exampleWrites).records.find? k).map RecordEntry.version =
        (deviceFold (envelopesAt k exampleWrites)).map (fun e => P.recordEntry "ada" e 0) :=
  (server_and_devices_converge .reference
    (Server.reached .reference Reference.config [Reference.registration "ada"]) exampleWrites
    "ada" .host "h" (by decide +kernel) (by decide +kernel) (by decide +kernel)).2.1

end RemotierSync.Convergence
