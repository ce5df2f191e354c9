import RemotierSync.Library.JsonText
import RemotierSync.Sealing
import RemotierSync.Api

/-!
# The bodies as JSON

One codec for each type that crosses the network, with the names that the derived implementations
give its fields. An integer is an `i64`, and byte strings are in base64. A key reference is tagged
inside: its `type` says which members it has besides, and members that it has not are ignored.
-/

namespace RemotierSync

def RejectReason.name : RejectReason → String
  | implausibleClock => "implausible_clock"
  | notAMember => "not_a_member"
  | stale => "stale"
  | tooLarge => "too_large"

def RejectReason.ofName (s : String) : Option RejectReason :=
  [implausibleClock, notAMember, stale, tooLarge].find? (fun r => r.name = s)

theorem RejectReason.ofName_name (r : RejectReason) : ofName r.name = some r := by
  cases r <;> decide

namespace Wire

open Codec Fields

def i64 : Codec ℤ := int InI64 (by unfold InI64 Json.IsWord; omega)

def u16 : Codec UInt16 :=
  (int (fun n => 0 ≤ n ∧ n < 2 ^ 16) (by unfold Json.IsWord; omega)).via
    (fun u => u.toNat) (fun n => some (UInt16.ofNat n.toNat)) (fun _ => True)
    (by simp) (fun _ => trivial) (fun u _ => ⟨by omega, by have := u.toNat_lt; omega⟩)

def b64 (P : Platform) : Codec (List UInt8) :=
  string.via P.base64Encode (fun s => (P.base64Decode s).toOption) (fun _ => True)
    (fun bytes _ => by rw [P.base64Decode_encode]; rfl) (fun _ => trivial) (fun _ _ => trivial)

def recordKind : Codec RecordKind := enum RecordKind.asStr RecordKind.parse RecordKind.parse_asStr

def rejectReason : Codec RejectReason := enum RejectReason.name RejectReason.ofName
  RejectReason.ofName_name

/-! ## Key references -/

def groupContent : Codec String := (field "group_id" string).struct (by decide)

/-- The reference that a tag and what comes with it stand for. -/
def keyRefContent (tag : String) (content : Json) : Option KeyRef :=
  if tag = "personal" then
    match content with
    | .obj _ => some .personal
    | .arr [] => some .personal
    | _ => none
  else if tag = "group" then (groupContent.decode content).map .group
  else none

def encodeKeyRef : KeyRef → Json
  | .personal => .obj [("type", .str "personal")]
  | .group groupId => .obj [("type", .str "group"), ("group_id", .str groupId)]

def decodeKeyRef : Json → Option KeyRef
  | .obj members =>
    match members.filter (fun p => p.1 = "type") with
    | [(_, .str tag)] => keyRefContent tag (.obj (members.filter (fun p => p.1 ≠ "type")))
    | _ => none
  | .arr (.str tag :: rest) => keyRefContent tag (.arr rest)
  | _ => none

theorem decodeKeyRef_encode (k : KeyRef) : decodeKeyRef (encodeKeyRef k) = some k := by
  cases k <;> rfl

theorem plain_encodeKeyRef (k : KeyRef) : Json.Plain 1 (encodeKeyRef k) := by
  cases k with
  | personal =>
    refine .obj (fun p hp => ?_)
    obtain rfl := List.mem_singleton.mp hp
    exact .str _
  | group groupId =>
    refine .obj (fun p hp => ?_)
    rcases List.mem_pair.mp hp with rfl | rfl <;> exact .str _

def keyRef : Codec KeyRef where
  valid _ := True
  depth := 1
  encode := encodeKeyRef
  decode := decodeKeyRef
  decode_encode _ := decodeKeyRef_encode _
  valid_of_decode _ := trivial
  plain_encode _ := plain_encodeKeyRef _

theorem decode_parse_keyRef (T : Json.Text) (k : KeyRef) :
    (T.parse (T.print (keyRef.encode k))).bind keyRef.decode = some k := by
  have hplain : Json.Plain Json.maxDepth (keyRef.encode k) :=
    (plain_encodeKeyRef k).mono (by decide)
  rw [T.parse_print hplain, Option.bind_some, keyRef.decode_encode trivial]

/-! ## Bodies -/

def optionalString (name : String) : Fields (Option String) :=
  optional name string (fun _ => Json.noConfusion)

def optionalI64 (name : String) : Fields (Option ℤ) :=
  optional name i64 (fun _ => Json.noConfusion)

def envelope (P : Platform) : Codec Envelope :=
  record
    ((field "id" string).and <| (field "kind" recordKind).and <|
      (field "keyRef" Wire.keyRef).and <| (optionalString "groupId").and <|
      (optionalString "parentId").and <| (field "sort" i64).and <| (field "updatedAt" i64).and <|
      (field "deviceId" string).and <| (optionalI64 "deletedAt").and <|
      (field "nonce" (b64 P)).and <| (field "ciphertext" (b64 P)).and <|
      defaulted "seq" i64 0 (show InI64 0 by decide))
    (fun ⟨id, kind, keyRef, groupId, parentId, sort, updatedAt, deviceId, deletedAt, nonce,
      ciphertext, seq⟩ => ⟨id, kind, keyRef, groupId, parentId, sort, updatedAt, deviceId,
      deletedAt, nonce, ciphertext, seq⟩)
    (fun e => (e.id, e.kind, e.keyRef, e.groupId, e.parentId, e.sort, e.updatedAt, e.deviceId,
      e.deletedAt, e.nonce, e.ciphertext, e.seq))
    (fun _ => rfl) (fun _ => rfl)
    (show List.Nodup ["id", "kind", "keyRef", "groupId", "parentId", "sort", "updatedAt",
      "deviceId", "deletedAt", "nonce", "ciphertext", "seq"] by decide)

def sealedBlob : Codec SealedBlob :=
  record
    ((field "nonce" string).and <| field "ciphertext" string)
    (fun ⟨nonce, ciphertext⟩ => ⟨nonce, ciphertext⟩)
    (fun s => (s.nonce, s.ciphertext))

def keyMaterial : Codec KeyMaterial :=
  record
    ((field "accountPublic" string).and <| (field "wrappedAccountSecret" sealedBlob).and <|
      field "wrappedPersonalKey" sealedBlob)
    (fun ⟨accountPublic, wrappedAccountSecret, wrappedPersonalKey⟩ => ⟨accountPublic,
      wrappedAccountSecret, wrappedPersonalKey⟩)
    (fun k => (k.accountPublic, k.wrappedAccountSecret, k.wrappedPersonalKey))

def registerRequest : Codec RegisterRequest :=
  record
    ((field "email" string).and <| (field "authKey" string).and <|
      (field "keyMaterial" Wire.keyMaterial).and <|
      (field "recoveryMaterial" Wire.keyMaterial).and <| (field "recoveryAuthKey" string).and <|
      (field "deviceId" string).and <| field "deviceName" string)
    (fun ⟨email, authKey, keyMaterial, recoveryMaterial, recoveryAuthKey, deviceId, deviceName⟩ =>
      ⟨email, authKey, keyMaterial, recoveryMaterial, recoveryAuthKey, deviceId, deviceName⟩)
    (fun r => (r.email, r.authKey, r.keyMaterial, r.recoveryMaterial, r.recoveryAuthKey,
      r.deviceId, r.deviceName))

def loginRequest : Codec LoginRequest :=
  record
    ((field "email" string).and <| (field "authKey" string).and <| (field "deviceId" string).and <|
      field "deviceName" string)
    (fun ⟨email, authKey, deviceId, deviceName⟩ => ⟨email, authKey, deviceId, deviceName⟩)
    (fun l => (l.email, l.authKey, l.deviceId, l.deviceName))

def recoverRequest : Codec RecoverRequest :=
  record
    ((field "email" string).and <| (field "recoveryAuthKey" string).and <|
      (field "deviceId" string).and <| field "deviceName" string)
    (fun ⟨email, recoveryAuthKey, deviceId, deviceName⟩ => ⟨email, recoveryAuthKey, deviceId,
      deviceName⟩)
    (fun r => (r.email, r.recoveryAuthKey, r.deviceId, r.deviceName))

def rewrapRequest : Codec RewrapRequest :=
  record
    ((field "authKey" string).and <| (field "keyMaterial" Wire.keyMaterial).and <|
      (field "recoveryAuthKey" string).and <| field "recoveryMaterial" Wire.keyMaterial)
    (fun ⟨authKey, keyMaterial, recoveryAuthKey, recoveryMaterial⟩ => ⟨authKey, keyMaterial,
      recoveryAuthKey, recoveryMaterial⟩)
    (fun r => (r.authKey, r.keyMaterial, r.recoveryAuthKey, r.recoveryMaterial))

def session : Codec Session :=
  record
    ((field "accountId" string).and <| (field "email" string).and <|
      (field "accessToken" string).and <| (field "refreshToken" string).and <|
      (field "expiresIn" i64).and <| field "keyMaterial" Wire.keyMaterial)
    (fun ⟨accountId, email, accessToken, refreshToken, expiresIn, keyMaterial⟩ => ⟨accountId,
      email, accessToken, refreshToken, expiresIn, keyMaterial⟩)
    (fun s => (s.accountId, s.email, s.accessToken, s.refreshToken, s.expiresIn, s.keyMaterial))

def refreshRequest : Codec String := (field "refreshToken" string).struct (by decide)

def pullResponse (P : Platform) : Codec PullResponse :=
  record
    ((field "envelopes" (list (envelope P))).and <| (field "cursor" i64).and <| field "more" bool)
    (fun ⟨envelopes, cursor, more⟩ => ⟨envelopes, cursor, more⟩)
    (fun p => (p.envelopes, p.cursor, p.more))
    (fun _ => rfl) (fun _ => rfl)
    (show List.Nodup ["envelopes", "cursor", "more"] by decide)

def pushRequest (P : Platform) : Codec (List Envelope) :=
  (field "envelopes" (list (envelope P))).struct (List.nodup_singleton _)

def accepted : Codec Accepted :=
  record
    ((field "id" string).and <| (field "kind" string).and <| field "seq" i64)
    (fun ⟨id, kind, seq⟩ => ⟨id, kind, seq⟩)
    (fun a => (a.id, a.kind, a.seq))

def rejected : Codec Rejected :=
  record
    ((field "id" string).and <| (field "kind" string).and <| field "reason" rejectReason)
    (fun ⟨id, kind, reason⟩ => ⟨id, kind, reason⟩)
    (fun r => (r.id, r.kind, r.reason))

def pushResponse : Codec PushResponse :=
  record
    ((field "accepted" (list Wire.accepted)).and <| (field "rejected" (list Wire.rejected)).and <|
      field "cursor" i64)
    (fun ⟨accepted, rejected, cursor⟩ => ⟨accepted, rejected, cursor⟩)
    (fun p => (p.accepted, p.rejected, p.cursor))

def userLookup : Codec UserLookup :=
  record
    ((field "userId" string).and <| (field "email" string).and <| field "accountPublic" string)
    (fun ⟨userId, email, accountPublic⟩ => ⟨userId, email, accountPublic⟩)
    (fun u => (u.userId, u.email, u.accountPublic))

def shareRequest : Codec ShareRequest :=
  record
    ((field "groupId" string).and <| (field "userId" string).and <| field "wrappedGroupKey" string)
    (fun ⟨groupId, userId, wrappedGroupKey⟩ => ⟨groupId, userId, wrappedGroupKey⟩)
    (fun s => (s.groupId, s.userId, s.wrappedGroupKey))

def share : Codec Share :=
  record
    ((field "groupId" string).and <| (field "ownerId" string).and <| (field "userId" string).and <|
      (field "email" string).and <| (field "wrappedGroupKey" string).and <| field "createdAt" i64)
    (fun ⟨groupId, ownerId, userId, email, wrappedGroupKey, createdAt⟩ => ⟨groupId, ownerId,
      userId, email, wrappedGroupKey, createdAt⟩)
    (fun s => (s.groupId, s.ownerId, s.userId, s.email, s.wrappedGroupKey, s.createdAt))

def device : Codec Device :=
  record
    ((field "deviceId" string).and <| (field "name" string).and <| field "lastSeen" i64)
    (fun ⟨deviceId, name, lastSeen⟩ => ⟨deviceId, name, lastSeen⟩)
    (fun d => (d.deviceId, d.name, d.lastSeen))

def instanceInfo : Codec InstanceInfo :=
  record
    ((field "name" string).and <| (field "version" string).and <|
      (field "formatVersions" (list u16)).and <| field "registrationOpen" bool)
    (fun ⟨name, version, formatVersions, registrationOpen⟩ => ⟨name, version, formatVersions,
      registrationOpen⟩)
    (fun i => (i.name, i.version, i.formatVersions, i.registrationOpen))

def apiError : Codec ApiError :=
  record
    ((field "code" string).and <| field "message" string)
    (fun ⟨code, message⟩ => ⟨code, message⟩)
    (fun a => (a.code, a.message))

/-! ## What the codecs ask of a value

Only integers and lists of them can be invalid. -/

section Valid

variable {P : Platform}

theorem valid_envelope {e : Envelope} : (envelope P).valid e ↔
    InI64 e.sort ∧ InI64 e.updatedAt ∧ (∀ t ∈ e.deletedAt, InI64 t) ∧ InI64 e.seq := by
  constructor
  · rintro ⟨_, _, _, _, _, hsort, hclock, _, hdeleted, _, _, hseq⟩
    exact ⟨hsort, hclock, hdeleted, hseq⟩
  · rintro ⟨hsort, hclock, hdeleted, hseq⟩
    exact .intro trivial (.intro trivial (.intro trivial (.intro (fun _ _ => trivial)
      (.intro (fun _ _ => trivial) (.intro hsort (.intro hclock (.intro trivial
        (.intro hdeleted (.intro trivial (.intro trivial hseq))))))))))

theorem valid_session {s : Session} : session.valid s ↔ InI64 s.expiresIn := by
  constructor
  · rintro ⟨_, _, _, _, hexpires, _⟩
    exact hexpires
  · intro hexpires
    exact .intro trivial (.intro trivial (.intro trivial (.intro trivial (.intro hexpires
      (.intro trivial (.intro (.intro trivial trivial) (.intro trivial trivial)))))))

theorem valid_pullResponse {r : PullResponse} : (pullResponse P).valid r ↔
    (∀ e ∈ r.envelopes, (envelope P).valid e) ∧ InI64 r.cursor := by
  constructor
  · rintro ⟨henvelopes, hcursor, _⟩
    exact ⟨henvelopes, hcursor⟩
  · rintro ⟨henvelopes, hcursor⟩
    exact .intro henvelopes (.intro hcursor trivial)

theorem valid_pushResponse {r : PushResponse} : pushResponse.valid r ↔
    (∀ a ∈ r.accepted, InI64 a.seq) ∧ InI64 r.cursor := by
  constructor
  · rintro ⟨haccepted, _, hcursor⟩
    exact ⟨fun a ha => (haccepted a ha).2.2, hcursor⟩
  · rintro ⟨haccepted, hcursor⟩
    exact .intro (fun a ha => .intro trivial (.intro trivial (haccepted a ha)))
      (.intro (fun _ _ => .intro trivial (.intro trivial trivial)) hcursor)

theorem valid_share {s : Share} : share.valid s ↔ InI64 s.createdAt := by
  constructor
  · rintro ⟨_, _, _, _, _, hcreated⟩
    exact hcreated
  · intro hcreated
    exact .intro trivial (.intro trivial (.intro trivial (.intro trivial (.intro trivial
      hcreated))))

theorem valid_device {d : Device} : device.valid d ↔ InI64 d.lastSeen := by
  constructor
  · rintro ⟨_, _, hseen⟩
    exact hseen
  · intro hseen
    exact .intro trivial (.intro trivial hseen)

theorem valid_keyMaterial (k : KeyMaterial) : keyMaterial.valid k :=
  .intro trivial (.intro (.intro trivial trivial) (.intro trivial trivial))

theorem valid_instanceInfo (i : InstanceInfo) : instanceInfo.valid i :=
  .intro trivial (.intro trivial (.intro (fun _ _ => trivial) trivial))

theorem valid_userLookup (u : UserLookup) : userLookup.valid u :=
  .intro trivial (.intro trivial trivial)

theorem valid_apiError (e : ApiError) : apiError.valid e := .intro trivial trivial

end Valid

end Wire

/-- A platform whose key references are stored as this JSON. -/
def Platform.withText (P : Platform) (T : Json.Text) (complaint : String → String) : Platform :=
  { P with
    keyRefToString := fun k => T.print (Wire.keyRef.encode k)
    keyRefFromStr := fun s =>
      match (T.parse s).bind Wire.keyRef.decode with
      | some k => .ok k
      | none => .error (complaint s)
    keyRefFromStr_toString := fun k => by rw [Wire.decode_parse_keyRef] }

end RemotierSync
