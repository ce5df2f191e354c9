import RemotierSync.Schema
import RemotierSync.Library.Program
import RemotierSync.Library.ChangeLog

/-!
# The store calls and their queries

`Call` lists the methods of the store trait and `Call.Ret` what each answers; handlers are
programs of these calls. The queries below are the statements both backends send, over the
tables both declare. Where the dialects differ the query takes the difference as a parameter:
how two email addresses are compared, and how two device ids are.
-/

namespace RemotierSync

structure TokenRow where
  accountId : String
deriving DecidableEq, Repr

structure ShareRow where
  groupId : String
  ownerId : String
  userId : String
  email : String
  wrappedGroupKey : String
  createdAt : ℤ
deriving DecidableEq, Repr

structure DeviceRow where
  deviceId : String
  name : String
  lastSeen : ℤ
deriving DecidableEq, Repr

/-- `createAccount` carries the id that `new_id` drew. -/
inductive Call where
  | createAccount (id : String) (new : NewAccount)
  | accountByEmail (email : String)
  | accountById (id : String)
  | rewrapAccount (id : String) (new : NewAccount)
  | putToken (hash accountId kind : String) (expiresAt : ℤ)
  | takeToken (hash kind : String)
  | consumeToken (hash kind : String)
  | revokeAccountTokens (accountId : String)
  | putEnvelope (accountId : String) (envelope : Envelope)
  | pull (accountId : String) (cursor limit : ℤ)
  | maxSeq (accountId : String)
  | putShare (ownerId groupId userId wrapped : String)
  | sharesForGroup (ownerId groupId : String)
  | deleteShare (ownerId groupId userId : String)
  | sharesForUser (userId : String)
  | shareOwner (groupId : String)
  | canWriteGroup (accountId groupId : String)
  | touchDevice (accountId deviceId name : String)
  | devices (accountId : String)
deriving DecidableEq

@[reducible] def Call.Ret : Call → Type
  | createAccount .. => Account
  | accountByEmail .. => Option Account
  | accountById .. => Option Account
  | rewrapAccount .. => Unit
  | putToken .. => Unit
  | takeToken .. => Option TokenRow
  | consumeToken .. => Option TokenRow
  | revokeAccountTokens .. => Unit
  | putEnvelope .. => Option ℤ
  | pull .. => List Envelope
  | maxSeq .. => ℤ
  | putShare .. => Unit
  | sharesForGroup .. => List ShareRow
  | deleteShare .. => Unit
  | sharesForUser .. => List ShareRow
  | shareOwner .. => Option String
  | canWriteGroup .. => Bool
  | touchDevice .. => Unit
  | devices .. => List DeviceRow

abbrev Handler (α : Type) := Program Call Call.Ret Error α

def ask (c : Call) : Handler c.Ret := Program.perform c

theorem run_ask {σ : Type} (exec : (c : Call) → σ → Except Error c.Ret × σ) (c : Call) (s : σ) :
    Program.run exec (ask c) s = exec c s := Program.run_perform exec c s

@[simp] theorem issues_ask (K : Call → Prop) (c : Call) : Program.Issues K (ask c) ↔ K c :=
  Program.issues_perform K c

/-- The characters with the Unicode property White_Space. -/
def isWhitespace (c : Char) : Bool :=
  c.toNat ∈ [0x9, 0xA, 0xB, 0xC, 0xD, 0x20, 0x85, 0xA0, 0x1680, 0x2000, 0x2001, 0x2002, 0x2003,
    0x2004, 0x2005, 0x2006, 0x2007, 0x2008, 0x2009, 0x200A, 0x2028, 0x2029, 0x202F, 0x205F, 0x3000]

def trim (s : String) : String :=
  String.ofList ((s.toList.dropWhile isWhitespace).reverse.dropWhile isWhitespace).reverse

/-- The texts that a call binds, but for those that have no U+0000 anyhow: names of kinds, JSON and
base64. -/
def Call.texts (P : Platform) : Call → List String
  | createAccount id new => [id, P.toLowercase (trim new.email), new.authHash,
      new.recoveryAuthHash, new.accountPublic, new.wrappedAccountSecret, new.wrappedPersonalKey,
      new.recoveryAccountSecret, new.recoveryPersonalKey]
  | accountByEmail email => [P.toLowercase (trim email)]
  | accountById id => [id]
  | rewrapAccount id new => [new.authHash, new.recoveryAuthHash, new.wrappedAccountSecret,
      new.wrappedPersonalKey, new.recoveryAccountSecret, new.recoveryPersonalKey, id]
  | putToken hash accountId kind _ => [hash, accountId, kind]
  | takeToken hash kind => [hash, kind]
  | consumeToken hash kind => [hash, kind]
  | revokeAccountTokens accountId => [accountId]
  | putEnvelope accountId envelope => [accountId, envelope.id] ++ envelope.groupId.toList ++
      envelope.parentId.toList ++ [envelope.deviceId]
  | pull accountId _ _ => [accountId]
  | maxSeq _ => []
  | putShare ownerId groupId userId wrapped => [groupId, ownerId, userId, wrapped]
  | sharesForGroup ownerId groupId => [groupId, ownerId]
  | deleteShare ownerId groupId userId => [groupId, ownerId, userId]
  | sharesForUser userId => [userId]
  | shareOwner groupId => [groupId]
  | canWriteGroup accountId groupId => [groupId, accountId]
  | touchDevice accountId deviceId name => [accountId, deviceId, name]
  | devices accountId => [accountId]

def Call.NulFree (P : Platform) (c : Call) : Prop := ∀ s ∈ c.texts P, '\x00' ∉ s.toList

instance (P : Platform) (c : Call) : Decidable (c.NulFree P) :=
  inferInstanceAs (Decidable (∀ s ∈ c.texts P, _))

def RecordEntry.beats (textGt : String → String → Bool) (excluded stored : RecordEntry) : Bool :=
  excluded.updatedAt > stored.updatedAt ||
    (excluded.updatedAt = stored.updatedAt && textGt excluded.deviceId stored.deviceId)

/-- The columns that `DO UPDATE SET` takes from the proposed row. -/
def RecordEntry.set (stored excluded : RecordEntry) : RecordEntry :=
  { stored with
    seq := excluded.seq
    groupId := excluded.groupId
    parentId := excluded.parentId
    sort := excluded.sort
    updatedAt := excluded.updatedAt
    deviceId := excluded.deviceId
    deletedAt := excluded.deletedAt
    keyRef := excluded.keyRef
    nonce := excluded.nonce
    ciphertext := excluded.ciphertext }

theorem RecordEntry.set_eq_of_key_eq {stored excluded : RecordEntry}
    (h : stored.key = excluded.key) : stored.set excluded = excluded := by
  obtain ⟨ha, hk⟩ := Prod.mk.inj h
  obtain ⟨hk, hi⟩ := Prod.mk.inj hk
  exact RecordEntry.ext ha hk hi rfl rfl rfl rfl rfl rfl rfl rfl rfl rfl

/-- What `put_envelope` leaves of a stored row when the proposed row conflicts with it. -/
def RecordEntry.merge (textGt : String → String → Bool) (excluded stored : RecordEntry) :
    RecordEntry :=
  if excluded.beats textGt stored then stored.set excluded else stored

theorem RecordEntry.merge_key (textGt : String → String → Bool) (excluded stored : RecordEntry) :
    (excluded.merge textGt stored).key = stored.key := by
  unfold merge
  split_ifs <;> rfl

def Account.rewrap (new : NewAccount) (a : Account) : Account :=
  { a with
    authHash := new.authHash
    recoveryAuthHash := new.recoveryAuthHash
    wrappedAccountSecret := new.wrappedAccountSecret
    wrappedPersonalKey := new.wrappedPersonalKey
    recoveryAccountSecret := new.recoveryAccountSecret
    recoveryPersonalKey := new.recoveryPersonalKey }

theorem Account.rewrap_id (new : NewAccount) (a : Account) : (a.rewrap new).id = a.id := rfl

def TokenEntry.extend (expiresAt : ℤ) (row : TokenEntry) : TokenEntry :=
  { row with expiresAt := expiresAt }

theorem TokenEntry.extend_hash (expiresAt : ℤ) (row : TokenEntry) :
    (row.extend expiresAt).hash = row.hash := rfl

def ShareEntry.rewrap (wrapped : String) (s : ShareEntry) : ShareEntry :=
  { s with wrappedGroupKey := wrapped }

theorem ShareEntry.rewrap_key (wrapped : String) (s : ShareEntry) :
    (s.rewrap wrapped).key = s.key := rfl

def DeviceEntry.touch (name : String) (now : ℤ) (d : DeviceEntry) : DeviceEntry :=
  { d with name := name, lastSeen := now }

theorem DeviceEntry.touch_key (name : String) (now : ℤ) (d : DeviceEntry) :
    (d.touch name now).key = d.key := rfl

namespace Tables

variable (P : Platform) (now : ℤ) (t : Tables)

def createAccount (emailEq : String → String → Bool) (id : String) (new : NewAccount) :
    Except Error Account × Tables :=
  let email := P.toLowercase (trim new.email)
  if t.accounts.rows.any (fun a => a.id = id || emailEq a.email email) then (.error .emailTaken, t)
  else
    let account : Account :=
      { id := id
        email := email
        authHash := new.authHash
        recoveryAuthHash := new.recoveryAuthHash
        accountPublic := new.accountPublic
        wrappedAccountSecret := new.wrappedAccountSecret
        wrappedPersonalKey := new.wrappedPersonalKey
        recoveryAccountSecret := new.recoveryAccountSecret
        recoveryPersonalKey := new.recoveryPersonalKey }
    let t' := { t with accounts := t.accounts.upsert account (fun a => a) (fun _ => rfl) }
    match t'.accounts.find? id with
    | some account => (.ok account, t')
    | none => (.error (.internal "account vanished after insert"), t')

def accountByEmail (emailEq : String → String → Bool) (email : String) : Option Account :=
  t.accounts.rows.find? (fun a => emailEq a.email (P.toLowercase (trim email)))

def accountById (id : String) : Option Account := t.accounts.find? id

def rewrapAccount (id : String) (new : NewAccount) : Tables :=
  { t with
    accounts := t.accounts.update (fun a => a.id = id) (Account.rewrap new)
      (Account.rewrap_id new) }

/-- The foreign key `account_id` is checked for an inserted row, not for an updated one. -/
def putToken (hash accountId kind : String) (expiresAt : ℤ) : Except Error Unit × Tables :=
  if kind ≠ "access" ∧ kind ≠ "refresh" then (.error .db, t)
  else if t.tokens.find? hash = none ∧ t.accountById accountId = none then (.error .db, t)
  else
    (.ok (), { t with
      tokens := t.tokens.upsert ⟨hash, accountId, kind, expiresAt⟩ (TokenEntry.extend expiresAt)
        (TokenEntry.extend_hash expiresAt) })

def isLive (hash kind : String) (row : TokenEntry) : Bool :=
  row.hash = hash && row.kind = kind && row.expiresAt > now

def takeToken (hash kind : String) : Option TokenRow :=
  (t.tokens.rows.find? (isLive now hash kind)).map (fun row => ⟨row.accountId⟩)

def consumeToken (hash kind : String) : Option TokenRow × Tables :=
  (t.takeToken now hash kind, { t with tokens := t.tokens.delete (isLive now hash kind) })

def revokeAccountTokens (accountId : String) : Tables :=
  { t with tokens := t.tokens.delete (fun row => row.accountId = accountId) }

def replaces (textGt : String → String → Bool) (excluded : RecordEntry) : Bool :=
  (t.records.find? excluded.key).all (excluded.beats textGt)

def upsertRecord (textGt : String → String → Bool) (excluded : RecordEntry) :
    KeyedTable RecordEntry.key :=
  t.records.upsert excluded (excluded.merge textGt) (excluded.merge_key textGt)

/-- The upsert of `put_envelope`, with the row it returns. -/
def putRecord (textGt : String → String → Bool) (excluded : RecordEntry) :
    Except Error (Option ℤ) × Tables :=
  if t.records.find? excluded.key = none ∧ t.accountById excluded.accountId = none then
    (.error .db, t)
  else
    (.ok (if t.replaces textGt excluded then some excluded.seq else none),
      { t with records := t.upsertRecord textGt excluded })

def sharedWith (userId : String) : List String :=
  (t.shares.rows.filter (fun s => s.userId = userId)).map (fun s => s.groupId)

def visible (accountId : String) (r : RecordEntry) : Bool :=
  r.accountId = accountId || r.groupId.any (fun g => g ∈ t.sharedWith accountId)

def pullRows (accountId : String) (cursor : ℤ) : List RecordEntry :=
  ChangeLog.after RecordEntry.seq cursor (t.records.rows.filter (t.visible accountId))

def putShare (ownerId groupId userId wrapped : String) : Except Error Unit × Tables :=
  if t.shares.find? (groupId, userId) = none ∧
      (t.accountById ownerId = none ∨ t.accountById userId = none) then (.error .db, t)
  else
    (.ok (), { t with
      shares := t.shares.upsert ⟨groupId, ownerId, userId, wrapped, now⟩ (ShareEntry.rewrap wrapped)
        (ShareEntry.rewrap_key wrapped) })

def shareRow (s : ShareEntry) (a : Account) : ShareRow :=
  ⟨s.groupId, s.ownerId, s.userId, a.email, s.wrappedGroupKey, s.createdAt⟩

def sharesForGroup (ownerId groupId : String) : List ShareRow :=
  (P.scanShares
    (t.shares.rows.filter (fun s => s.groupId = groupId && s.ownerId = ownerId))).filterMap
      (fun s => (t.accountById s.userId).map (shareRow s))

def deleteShare (ownerId groupId userId : String) : Tables :=
  { t with
    shares := t.shares.delete
      (fun s => s.groupId = groupId && s.ownerId = ownerId && s.userId = userId) }

def sharesForUser (userId : String) : List ShareRow :=
  (P.scanShares (t.shares.rows.filter (fun s => s.userId = userId))).filterMap
    (fun s => (t.accountById s.ownerId).map (shareRow s))

def shareOwner (groupId : String) : Option String :=
  (P.limitOne (t.shares.rows.filter (fun s => s.groupId = groupId))).map (fun s => s.ownerId)

def canWriteGroup (accountId groupId : String) : Bool :=
  !t.shares.rows.any (fun s => s.groupId = groupId) ||
    t.shares.rows.any (fun s =>
      s.groupId = groupId && (s.ownerId = accountId || s.userId = accountId))

def touchDevice (accountId deviceId name : String) : Except Error Unit × Tables :=
  if t.devices.find? (accountId, deviceId) = none ∧ t.accountById accountId = none then
    (.error .db, t)
  else
    (.ok (), { t with
      devices := t.devices.upsert ⟨accountId, deviceId, name, now⟩ (DeviceEntry.touch name now)
        (DeviceEntry.touch_key name now) })

def devicesOf (accountId : String) : List DeviceRow :=
  ((P.scanDevices (t.devices.rows.filter (fun d => d.accountId = accountId))).insertionSort
    (fun d d' => d'.lastSeen ≤ d.lastSeen)).map (fun d => ⟨d.deviceId, d.name, d.lastSeen⟩)

end Tables
end RemotierSync
