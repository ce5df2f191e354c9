import Mathlib.Data.Prod.Lex
import Mathlib.Data.String.Basic

/-!
# Records on the wire, and which of two versions wins

An envelope is the plaintext routing header of a record with its encrypted payload. Versions of
one record are compared by their clocks: the time the client wrote, and the device id on a tie.
`resolve` is the comparison a client makes; `resolve_eq_takeRemote` identifies it with the
strict lexicographic order on clocks. Strings are compared by code points, which is the order
of their UTF-8 bytes.
-/

namespace RemotierSync

inductive RecordKind where
  | host
  | group
  | identity
  | varDef
  | setting
  | workspace
  | deviceLayout
deriving DecidableEq, Repr

namespace RecordKind

def asStr : RecordKind → String
  | host => "host"
  | group => "group"
  | identity => "identity"
  | varDef => "var_def"
  | setting => "setting"
  | workspace => "workspace"
  | deviceLayout => "device_layout"

def parse (s : String) : Option RecordKind :=
  if s = "host" then some host
  else if s = "group" then some group
  else if s = "identity" then some identity
  else if s = "var_def" then some varDef
  else if s = "setting" then some setting
  else if s = "workspace" then some workspace
  else if s = "device_layout" then some deviceLayout
  else none

@[simp] theorem parse_asStr (k : RecordKind) : parse k.asStr = some k := by
  cases k <;> decide

theorem asStr_injective : Function.Injective asStr := by
  intro k k' h
  have hparse := congrArg parse h
  rw [parse_asStr, parse_asStr] at hparse
  exact Option.some.inj hparse

theorem eq_asStr_of_parse {s : String} {k : RecordKind} (h : parse s = some k) : s = k.asStr := by
  unfold parse at h
  split_ifs at h with h₁ h₂ h₃ h₄ h₅ h₆ h₇ <;> (obtain rfl := Option.some.inj h) <;> assumption

end RecordKind

inductive KeyRef where
  | personal
  | group (groupId : String)
deriving DecidableEq, Repr

@[ext] structure Clock where
  updatedAt : ℤ
  deviceId : String
deriving DecidableEq, Repr

inductive Resolution where
  | keepLocal
  | takeRemote
deriving DecidableEq, Repr

def resolve (mine remote : Clock) : Resolution :=
  match compare remote.updatedAt mine.updatedAt with
  | .gt => .takeRemote
  | .lt => .keepLocal
  | .eq => if remote.deviceId > mine.deviceId then .takeRemote else .keepLocal

/-- The furthest-in-the-future `updated_at` a server will accept, as milliseconds. -/
def maxClockSkewMs : ℤ := 24 * 60 * 60 * 1000

def clockIsPlausible (updatedAt serverNow : ℤ) : Bool := updatedAt ≤ serverNow + maxClockSkewMs

namespace Clock

def key (c : Clock) : ℤ ×ₗ String := toLex (c.updatedAt, c.deviceId)

theorem key_injective : Function.Injective key := by
  intro c d h
  have hp : (c.updatedAt, c.deviceId) = (d.updatedAt, d.deviceId) := toLex.injective h
  exact Clock.ext (congrArg Prod.fst hp) (congrArg Prod.snd hp)

instance : LinearOrder Clock := LinearOrder.lift' key key_injective

theorem lt_iff {c d : Clock} :
    c < d ↔ c.updatedAt < d.updatedAt ∨ c.updatedAt = d.updatedAt ∧ c.deviceId < d.deviceId := by
  change key c < key d ↔ _
  rw [Prod.Lex.lt_iff]
  rfl

end Clock

/-- The comparison of the clients is the strict order on clocks. -/
theorem resolve_eq_takeRemote {c d : Clock} : resolve c d = .takeRemote ↔ c < d := by
  rw [Clock.lt_iff, resolve]
  rcases lt_trichotomy c.updatedAt d.updatedAt with h | h | h
  · rw [compare_gt_iff_gt.mpr h]
    simp [h]
  · rw [compare_eq_iff_eq.mpr h.symm]
    simp [h]
  · rw [compare_lt_iff_lt.mpr h]
    simp [h.ne', h.not_gt]

@[ext] structure Envelope where
  id : String
  kind : RecordKind
  keyRef : KeyRef
  groupId : Option String
  parentId : Option String
  sort : ℤ
  updatedAt : ℤ
  deviceId : String
  deletedAt : Option ℤ
  nonce : List UInt8
  ciphertext : List UInt8
  seq : ℤ
deriving DecidableEq, Repr

namespace Envelope

def clock (e : Envelope) : Clock := ⟨e.updatedAt, e.deviceId⟩

/-- Two envelopes that differ in `seq` at most: the server assigns that field. -/
def SameVersion (e e' : Envelope) : Prop := { e with seq := 0 } = { e' with seq := 0 }

instance (e e' : Envelope) : Decidable (SameVersion e e') :=
  inferInstanceAs (Decidable ({ e with seq := 0 } = { e' with seq := 0 }))

end Envelope
end RemotierSync
