import RemotierSync.Api
import RemotierSync.Library.KeyedTable

/-!
# The tables of the server

The rows as the schema declares them, with every column a handler reads, and the tables with
their primary keys. A record is stored in text columns: its kind, its key reference as JSON and
its two byte strings in base64. `Platform` is what the server takes from its dependencies, with
the laws they document; a row written by `recordEntry` decodes to the envelope it was made from.
-/

namespace RemotierSync

structure Account where
  id : String
  email : String
  authHash : String
  accountPublic : String
  wrappedAccountSecret : String
  wrappedPersonalKey : String
  recoveryAccountSecret : String
  recoveryPersonalKey : String
  recoveryAuthHash : String
deriving DecidableEq, Repr

structure NewAccount where
  email : String
  authHash : String
  recoveryAuthHash : String
  accountPublic : String
  wrappedAccountSecret : String
  wrappedPersonalKey : String
  recoveryAccountSecret : String
  recoveryPersonalKey : String
deriving DecidableEq, Repr

structure TokenEntry where
  hash : String
  accountId : String
  kind : String
  expiresAt : ℤ
deriving DecidableEq, Repr

@[ext] structure RecordEntry where
  accountId : String
  kind : String
  id : String
  seq : ℤ
  groupId : Option String
  parentId : Option String
  sort : ℤ
  updatedAt : ℤ
  deviceId : String
  deletedAt : Option ℤ
  keyRef : String
  nonce : String
  ciphertext : String
deriving DecidableEq, Repr

structure ShareEntry where
  groupId : String
  ownerId : String
  userId : String
  wrappedGroupKey : String
  createdAt : ℤ
deriving DecidableEq, Repr

structure DeviceEntry where
  accountId : String
  deviceId : String
  name : String
  lastSeen : ℤ
deriving DecidableEq, Repr

def RecordEntry.key (r : RecordEntry) : String × String × String := (r.accountId, r.kind, r.id)

def ShareEntry.key (s : ShareEntry) : String × String := (s.groupId, s.userId)

def DeviceEntry.key (d : DeviceEntry) : String × String := (d.accountId, d.deviceId)

/-- The tables both backends declare. The counter of the change log is theirs to add. -/
structure Tables where
  accounts : KeyedTable Account.id
  tokens : KeyedTable TokenEntry.hash
  records : KeyedTable RecordEntry.key
  shares : KeyedTable ShareEntry.key
  devices : KeyedTable DeviceEntry.key

def Tables.migrated : Tables where
  accounts := .empty
  tokens := .empty
  records := .empty
  shares := .empty
  devices := .empty

/-- The functions of other crates that the server calls: base64, `serde_json` on a key
reference, Unicode lowercasing, the token and password hashes, and what a query leaves open: the
row that a `LIMIT 1` without an order returns, and the order of rows that no `ORDER BY` decides. -/
structure Platform where
  base64Encode : List UInt8 → String
  base64Decode : String → Except String (List UInt8)
  base64Decode_encode : ∀ bytes, base64Decode (base64Encode bytes) = .ok bytes
  keyRefToString : KeyRef → String
  keyRefFromStr : String → Except String KeyRef
  keyRefFromStr_toString : ∀ k, keyRefFromStr (keyRefToString k) = .ok k
  toLowercase : String → String
  hashToken : String → String
  hashPassword : (authKey salt : String) → Except String String
  verifyPassword : (authKey stored : String) → Bool
  limitOne : List ShareEntry → Option ShareEntry
  mem_of_limitOne : ∀ {rows row}, limitOne rows = some row → row ∈ rows
  limitOne_eq_none : ∀ {rows}, limitOne rows = none → rows = []
  scanShares : List ShareEntry → List ShareEntry
  scanShares_perm : ∀ rows, (scanShares rows).Perm rows
  scanDevices : List DeviceEntry → List DeviceEntry
  scanDevices_perm : ∀ rows, (scanDevices rows).Perm rows

namespace Platform

variable (P : Platform)

theorem keyRefToString_injective : Function.Injective P.keyRefToString := by
  intro k k' h
  have he := P.keyRefFromStr_toString k
  rw [h, P.keyRefFromStr_toString k'] at he
  exact (Except.ok.inj he).symm

@[simp] theorem mem_scanShares {rows : List ShareEntry} {s : ShareEntry} :
    s ∈ P.scanShares rows ↔ s ∈ rows := (P.scanShares_perm rows).mem_iff

@[simp] theorem mem_scanDevices {rows : List DeviceEntry} {d : DeviceEntry} :
    d ∈ P.scanDevices rows ↔ d ∈ rows := (P.scanDevices_perm rows).mem_iff

def recordEntry (accountId : String) (e : Envelope) (seq : ℤ) : RecordEntry where
  accountId := accountId
  kind := e.kind.asStr
  id := e.id
  seq := seq
  groupId := e.groupId
  parentId := e.parentId
  sort := e.sort
  updatedAt := e.updatedAt
  deviceId := e.deviceId
  deletedAt := e.deletedAt
  keyRef := P.keyRefToString e.keyRef
  nonce := P.base64Encode e.nonce
  ciphertext := P.base64Encode e.ciphertext

def envelopeFromRow (r : RecordEntry) : Except Error Envelope := do
  let kind ← match RecordKind.parse r.kind with
    | some kind => .ok kind
    | none => .error (.internal ("stored record has unknown kind " ++ r.kind))
  let keyRef ← (P.keyRefFromStr r.keyRef).mapError .internal
  let nonce ← (P.base64Decode r.nonce).mapError .internal
  let ciphertext ← (P.base64Decode r.ciphertext).mapError .internal
  return {
    id := r.id
    kind := kind
    keyRef := keyRef
    groupId := r.groupId
    parentId := r.parentId
    sort := r.sort
    updatedAt := r.updatedAt
    deviceId := r.deviceId
    deletedAt := r.deletedAt
    nonce := nonce
    ciphertext := ciphertext
    seq := r.seq }

end Platform

namespace RecordEntry

def clock (r : RecordEntry) : Clock := ⟨r.updatedAt, r.deviceId⟩

def version (r : RecordEntry) : RecordEntry := { r with seq := 0 }

/-- The row belongs to the group, by its routing hint or by its key. -/
def InGroup (P : Platform) (r : RecordEntry) (groupId : String) : Prop :=
  r.groupId = some groupId ∨ r.keyRef = P.keyRefToString (.group groupId)

instance (P : Platform) (r : RecordEntry) (groupId : String) : Decidable (r.InGroup P groupId) :=
  inferInstanceAs (Decidable (_ ∨ _))

end RecordEntry

section RecordEntry

variable {P : Platform} {accountId : String} {e : Envelope} {seq : ℤ} {r : RecordEntry}

@[simp] theorem recordEntry_key :
    (P.recordEntry accountId e seq).key = (accountId, e.kind.asStr, e.id) := rfl

@[simp] theorem recordEntry_clock : (P.recordEntry accountId e seq).clock = e.clock := rfl

@[simp] theorem recordEntry_seq : (P.recordEntry accountId e seq).seq = seq := rfl

theorem recordEntry_inGroup {g : String} :
    (P.recordEntry accountId e seq).InGroup P g ↔ e.groupId = some g ∨ e.keyRef = .group g :=
  or_congr Iff.rfl P.keyRefToString_injective.eq_iff

theorem envelopeFromRow_recordEntry :
    P.envelopeFromRow (P.recordEntry accountId e seq) = .ok { e with seq := seq } := by
  simp only [Platform.envelopeFromRow, Platform.recordEntry, RecordKind.parse_asStr,
    P.keyRefFromStr_toString, P.base64Decode_encode]
  rfl

/-- A row decodes exactly if its kind is known and its encoded columns decode. -/
theorem envelopeFromRow_eq_ok : P.envelopeFromRow r = .ok e ↔
    ∃ kind keyRef nonce ciphertext, RecordKind.parse r.kind = some kind ∧
      P.keyRefFromStr r.keyRef = .ok keyRef ∧ P.base64Decode r.nonce = .ok nonce ∧
      P.base64Decode r.ciphertext = .ok ciphertext ∧
      e = ⟨r.id, kind, keyRef, r.groupId, r.parentId, r.sort, r.updatedAt, r.deviceId, r.deletedAt,
        nonce, ciphertext, r.seq⟩ := by
  constructor
  · intro h
    unfold Platform.envelopeFromRow at h
    cases hk : RecordKind.parse r.kind with
    | none => simp [hk, bind, Except.bind] at h
    | some kind =>
      cases hr : P.keyRefFromStr r.keyRef with
      | error m => simp [hk, hr, bind, Except.bind, Except.mapError] at h
      | ok keyRef =>
        cases hn : P.base64Decode r.nonce with
        | error m => simp [hk, hr, hn, bind, Except.bind, Except.mapError] at h
        | ok nonce =>
          cases hc : P.base64Decode r.ciphertext with
          | error m => simp [hk, hr, hn, hc, bind, Except.bind, Except.mapError] at h
          | ok ciphertext =>
            simp only [hk, hr, hn, hc, bind, Except.bind, Except.mapError, pure, Except.pure,
              Except.ok.injEq] at h
            exact ⟨kind, keyRef, nonce, ciphertext, rfl, rfl, rfl, rfl, h.symm⟩
  · rintro ⟨kind, keyRef, nonce, ciphertext, hk, hr, hn, hc, rfl⟩
    simp only [Platform.envelopeFromRow, hk, hr, hn, hc]
    rfl

theorem envelopeFromRow_columns (h : P.envelopeFromRow r = .ok e) :
    e.id = r.id ∧ RecordKind.parse r.kind = some e.kind ∧ e.groupId = r.groupId ∧
      e.clock = r.clock ∧ e.seq = r.seq := by
  obtain ⟨kind, _, _, _, hk, _, _, _, rfl⟩ := envelopeFromRow_eq_ok.mp h
  exact ⟨rfl, hk, rfl, rfl, rfl⟩

theorem envelopeFromRow_seq (h : P.envelopeFromRow r = .ok e) : e.seq = r.seq :=
  (envelopeFromRow_columns h).2.2.2.2

end RecordEntry
end RemotierSync
