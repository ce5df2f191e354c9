import RemotierSync.Transport
import RemotierSync.Fidelity

/-!
# Payloads

What is inside the ciphertext of a record: one type for each kind, written as JSON and sealed
against the header of the envelope. The fields that an envelope repeats are hints there; the
payload has them as the device wrote them. A server that keeps to its code hands out what opens to
the payloads it was given (`payloads_arrive`), and one that does not can hand out nothing else that
opens, as long as it forges nothing (`hostile_server`).
-/

namespace RemotierSync

/-- The key is named by its fingerprint: ids of keys differ between devices. -/
structure HostPayload where
  groupId : Option String
  label : String
  hostname : String
  port : Option ℤ
  identityId : Option String
  jumpHostId : Option String
  color : Option String
  icon : Option String
  tags : List String
  sort : ℤ
  username : Option String
  authKind : Option String
  keyFingerprint : Option String
  createdAt : ℤ
deriving DecidableEq, Repr

structure GroupPayload where
  parentId : Option String
  name : String
  sort : ℤ
  defaultPort : Option ℤ
  defaultIdentityId : Option String
  defaultJumpHostId : Option String
  icon : Option String
  color : Option String
  createdAt : ℤ
deriving DecidableEq, Repr

structure IdentityPayload where
  label : String
  username : String
  authKind : String
  keyFingerprint : Option String
  createdAt : ℤ
deriving DecidableEq, Repr

structure VarDefPayload where
  scope : String
  scopeId : String
  name : String
  label : Option String
  defaultValue : Option String
  required : Bool
  createdAt : ℤ
deriving DecidableEq, Repr

structure SettingPayload where
  key : String
  value : String
deriving DecidableEq, Repr

structure WorkspacePayload where
  name : String
  layoutJson : String
  createdAt : ℤ
deriving DecidableEq, Repr

structure DeviceLayoutPayload where
  deviceName : String
  layoutJson : String
deriving DecidableEq, Repr

@[reducible] def RecordKind.Payload : RecordKind → Type
  | .host => HostPayload
  | .group => GroupPayload
  | .identity => IdentityPayload
  | .varDef => VarDefPayload
  | .setting => SettingPayload
  | .workspace => WorkspacePayload
  | .deviceLayout => DeviceLayoutPayload

namespace Wire

open Codec Fields

def hostPayload : Codec HostPayload :=
  record
    ((optionalString "groupId").and <| (field "label" string).and <|
      (field "hostname" string).and <| (optionalI64 "port").and <|
      (optionalString "identityId").and <| (optionalString "jumpHostId").and <|
      (optionalString "color").and <| (optionalString "icon").and <|
      (field "tags" (list string)).and <| (field "sort" i64).and <|
      (optionalString "username").and <| (optionalString "authKind").and <|
      (optionalString "keyFingerprint").and <| field "createdAt" i64)
    (fun ⟨groupId, label, hostname, port, identityId, jumpHostId, color, icon, tags, sort,
      username, authKind, keyFingerprint, createdAt⟩ => ⟨groupId, label, hostname, port,
      identityId, jumpHostId, color, icon, tags, sort, username, authKind, keyFingerprint,
      createdAt⟩)
    (fun p => (p.groupId, p.label, p.hostname, p.port, p.identityId, p.jumpHostId, p.color, p.icon,
      p.tags, p.sort, p.username, p.authKind, p.keyFingerprint, p.createdAt))

def groupPayload : Codec GroupPayload :=
  record
    ((optionalString "parentId").and <| (field "name" string).and <| (field "sort" i64).and <|
      (optionalI64 "defaultPort").and <| (optionalString "defaultIdentityId").and <|
      (optionalString "defaultJumpHostId").and <| (optionalString "icon").and <|
      (optionalString "color").and <| field "createdAt" i64)
    (fun ⟨parentId, name, sort, defaultPort, defaultIdentityId, defaultJumpHostId, icon, color,
      createdAt⟩ => ⟨parentId, name, sort, defaultPort, defaultIdentityId, defaultJumpHostId, icon,
      color, createdAt⟩)
    (fun p => (p.parentId, p.name, p.sort, p.defaultPort, p.defaultIdentityId, p.defaultJumpHostId,
      p.icon, p.color, p.createdAt))

def identityPayload : Codec IdentityPayload :=
  record
    ((field "label" string).and <| (field "username" string).and <|
      (field "authKind" string).and <| (optionalString "keyFingerprint").and <|
      field "createdAt" i64)
    (fun ⟨label, username, authKind, keyFingerprint, createdAt⟩ => ⟨label, username, authKind,
      keyFingerprint, createdAt⟩)
    (fun p => (p.label, p.username, p.authKind, p.keyFingerprint, p.createdAt))

def varDefPayload : Codec VarDefPayload :=
  record
    ((field "scope" string).and <| (field "scopeId" string).and <| (field "name" string).and <|
      (optionalString "label").and <| (optionalString "defaultValue").and <|
      (field "required" bool).and <| field "createdAt" i64)
    (fun ⟨scope, scopeId, name, label, defaultValue, required, createdAt⟩ => ⟨scope, scopeId, name,
      label, defaultValue, required, createdAt⟩)
    (fun p => (p.scope, p.scopeId, p.name, p.label, p.defaultValue, p.required, p.createdAt))

def settingPayload : Codec SettingPayload :=
  record
    ((field "key" string).and <| field "value" string)
    (fun ⟨key, value⟩ => ⟨key, value⟩)
    (fun p => (p.key, p.value))

def workspacePayload : Codec WorkspacePayload :=
  record
    ((field "name" string).and <| (field "layoutJson" string).and <| field "createdAt" i64)
    (fun ⟨name, layoutJson, createdAt⟩ => ⟨name, layoutJson, createdAt⟩)
    (fun p => (p.name, p.layoutJson, p.createdAt))

def deviceLayoutPayload : Codec DeviceLayoutPayload :=
  record
    ((field "deviceName" string).and <| field "layoutJson" string)
    (fun ⟨deviceName, layoutJson⟩ => ⟨deviceName, layoutJson⟩)
    (fun p => (p.deviceName, p.layoutJson))

def payload : (kind : RecordKind) → Codec kind.Payload
  | .host => hostPayload
  | .group => groupPayload
  | .identity => identityPayload
  | .varDef => varDefPayload
  | .setting => settingPayload
  | .workspace => workspacePayload
  | .deviceLayout => deviceLayoutPayload

theorem depth_payload (kind : RecordKind) : (payload kind).depth ≤ Json.maxDepth := by
  cases kind <;> decide

end Wire

def ofUtf8 (bytes : List UInt8) : Option String := String.fromUTF8? ⟨bytes.toArray⟩

theorem ofUtf8_utf8 (s : String) : ofUtf8 (utf8 s) = some s := by
  have hbytes : (⟨(utf8 s).toArray⟩ : ByteArray) = s.toByteArray := by
    simp [utf8, String.toUTF8]
  rw [ofUtf8, hbytes, String.fromUTF8?, dif_pos s.isValidUTF8]
  rfl

namespace Crypto

inductive JsonError where
  | crypto (e : Error)
  | json
deriving DecidableEq, Repr

variable (A : Aead) (T : Json.Text) {α : Type} (c : Codec α)

def sealJson (nonce : XNonce) (key : ContentKey) (aad : List UInt8) (value : α) :
    Except JsonError (List UInt8 × List UInt8) :=
  (sealPayload A nonce key aad (utf8 (T.print (c.encode value)))).mapError .crypto

def openJson (key : ContentKey) (aad nonce ciphertext : List UInt8) : Except JsonError α := do
  let json ← (openPayload A key aad nonce ciphertext).mapError .crypto
  match (ofUtf8 json).bind (fun text => (T.parse text).bind c.decode) with
  | some value => .ok value
  | none => .error .json

variable {A} {T} {c} {key : ContentKey} {aad : List UInt8} {value : α}

theorem sealPayload_of_sealJson {nonce : XNonce} {sealed : List UInt8 × List UInt8}
    (h : sealJson A T c nonce key aad value = .ok sealed) :
    sealPayload A nonce key aad (utf8 (T.print (c.encode value))) = .ok sealed := by
  unfold sealJson at h
  cases hseal : sealPayload A nonce key aad (utf8 (T.print (c.encode value))) with
  | error e =>
    rw [hseal] at h
    cases h
  | ok sealed' =>
    rw [hseal] at h
    exact congrArg Except.ok (Except.ok.inj h)

/-- Where the text of a value is what opens, the value is. -/
theorem openJson_of_openPayload {nonce ciphertext : List UInt8}
    (hdepth : c.depth ≤ Json.maxDepth) (hvalid : c.valid value)
    (h : openPayload A key aad nonce ciphertext = .ok (utf8 (T.print (c.encode value)))) :
    openJson A T c key aad nonce ciphertext = .ok value := by
  have hread : (ofUtf8 (utf8 (T.print (c.encode value)))).bind
      (fun text => (T.parse text).bind c.decode) = some value := by
    rw [ofUtf8_utf8, Option.bind_some, T.parse_print ((c.plain_encode hvalid).mono hdepth),
      Option.bind_some, c.decode_encode hvalid]
  rw [openJson, h]
  simp only [Except.mapError, bind, Except.bind, hread]

end Crypto

namespace Payloads

open Crypto SqliteStore Transport

variable (P : Platform) (cfg : Settings)

/-- A push that is answered with the envelope under the number. -/
def Accepts (pushed : Envelope) (seq : ℤ) (s : AppState) (event : Event) : Prop :=
  ∃ req envelopes response, event = .request req ∧ req.endpoint = .push envelopes ∧
    pushed ∈ envelopes ∧ Router.respond P cfg s req = .ok (.push response) ∧
    ⟨pushed.id, pushed.kind.asStr, seq⟩ ∈ response.accepted

/-- The envelope was pushed and accepted, and opens to whatever payload was sealed into it. -/
def Arrives (T : Json.Text) (events : List Event) (e : Envelope) : Prop :=
  ∃ pushed, History.Occurred (Router.step P cfg) (.boot .migrated) (Accepts P cfg pushed e.seq)
      events ∧ e.SameVersion pushed ∧
    ∀ A nonce key (kind : RecordKind) (p : kind.Payload), (Wire.payload kind).valid p →
      sealJson A T (Wire.payload kind) nonce key pushed.aad p =
        .ok (pushed.nonce, pushed.ciphertext) →
      openJson A T (Wire.payload kind) key e.aad e.nonce e.ciphertext = .ok p

variable {P} {cfg} {events before : List Event} {req : HttpRequest} {e pushed : Envelope} {seq : ℤ}

theorem exists_event {first later : List Arrival} {a : Arrival}
    (h : Router.arrivals P cfg (.boot .migrated) events = first ++ a :: later) :
    ∃ before req rest, events = before ++ .request req :: rest ∧
      Router.arrivals P cfg (.boot .migrated) before = first ∧
      Router.arrival P (Router.reached P cfg before) req = some a := by
  induction events using List.reverseRecOn generalizing later with
  | nil => simp [Router.arrivals] at h
  | append_singleton events event ih =>
    have hold {later : List Arrival}
        (h : Router.arrivals P cfg (.boot .migrated) events = first ++ a :: later) :
        ∃ before req rest, events ++ [event] = before ++ .request req :: rest ∧
          Router.arrivals P cfg (.boot .migrated) before = first ∧
          Router.arrival P (Router.reached P cfg before) req = some a := by
      obtain ⟨before, req, rest, rfl, hfirst, ha⟩ := ih h
      exact ⟨before, req, rest ++ [event], by simp, hfirst, ha⟩
    cases event with
    | restart =>
      rw [Router.arrivals_append] at h
      exact hold (by simpa [Router.arrivals] using h)
    | request req =>
      rw [Router.arrivals_snoc] at h
      cases ha : Router.arrival P (Router.reached P cfg events) req with
      | none =>
        rw [ha, Option.toList_none, List.append_nil] at h
        exact hold h
      | some b =>
        rw [ha, Option.toList_some] at h
        rcases History.snoc_eq_append_cons.mp h with ⟨rfl, rfl, _⟩ | ⟨mid, _, hmid⟩
        · exact ⟨events, req, [], rfl, rfl, ha⟩
        · exact hold hmid

theorem push_of_arrival {s : AppState} {a : Arrival} {caller : Caller} {body : List Envelope}
    (ha : Router.arrival P s req = some a) (hpush : a.pushes = some (caller, body)) :
    req.endpoint = .push body ∧ Router.caller P s.store req = some caller ∧ a.now = req.now := by
  obtain ⟨r, hr, rfl⟩ := Option.map_eq_some_iff.mp ha
  obtain rfl : r = .push caller body := Arrival.pushes_eq_some.mp hpush
  unfold Router.request at hr
  cases hendpoint : req.endpoint <;> simp only [hendpoint, reduceCtorEq, Option.some.injEq] at hr
  all_goals
    obtain ⟨c, hc, hr⟩ := Option.map_eq_some_iff.mp hr
    cases hr
  exact ⟨rfl, hc, rfl⟩

theorem respond_of_caller {α : Type} {s : AppState} {f : Caller → Handler α} {body : α → Body}
    {c : Caller} {r : α}
    (h : Router.handler P cfg (Router.admitted s req) req =
      Router.withCaller P req fun caller => f caller >>= fun a => return .ok (body a))
    (hcaller : Router.caller P s.store req = some c)
    (hr : (Program.run (exec P req.now) (f c) s.store).1 = .ok r) :
    Router.respond P cfg s req = .ok (body r) := by
  rw [Router.respond, Router.outcome_of_caller h hcaller, Program.run_bind_pure, hr]
  rfl

theorem accepts_of_accepted (h : Fidelity.Accepted P cfg.toConfig
      (Router.arrivals P cfg (.boot .migrated) events) pushed seq) :
    History.Occurred (Router.step P cfg) (.boot .migrated) (Accepts P cfg pushed seq) events := by
  obtain ⟨first, a, later, harrivals, ⟨caller, body⟩, hpush, hmem, _, response, hresponse,
    hreport⟩ := h
  obtain ⟨before, req, rest, rfl, rfl, ha⟩ := exists_event harrivals
  obtain ⟨hendpoint, hcaller, hnow⟩ := push_of_arrival ha hpush
  have hhandler : Router.handler P cfg (Router.admitted (Router.reached P cfg before) req) req =
      Router.withCaller P req fun caller =>
        Sync.push cfg.toConfig caller req.now body >>= fun a => return .ok (.push a) := by
    rw [Router.handler, hendpoint]
  have hanswered : (Program.run (exec P req.now) (Sync.push cfg.toConfig caller req.now body)
      (Router.reached P cfg before).store).1 = .ok response := by
    rw [Router.store_reached, ← hnow]
    exact hresponse
  exact ⟨before, .request req, rest, rfl, req, body, response, rfl, hendpoint, hmem,
    respond_of_caller hhandler hcaller hanswered, hreport⟩

theorem pull_arrives (T : Json.Text) {cursor : ℤ} {c : Caller} (hpull : req.endpoint = .pull cursor)
    (hcaller : Router.caller P (Router.reached P cfg before).store req = some c) :
    ∃ resp, Router.respond P cfg (Router.reached P cfg before) req = .ok (.pull resp) ∧
      ∀ e ∈ resp.envelopes, Arrives P cfg T before e := by
  obtain ⟨resp, hresp⟩ := Fidelity.pull_reached_isOk P cfg.toConfig
    (Router.arrivals P cfg (.boot .migrated) before) req.now cursor c
  have hhandler : Router.handler P cfg (Router.admitted (Router.reached P cfg before) req) req =
      Router.withCaller P req fun caller =>
        Sync.pull cfg.toConfig caller cursor >>= fun a => return .ok (.pull a) := by
    rw [Router.handler, hpull]
  have hanswer := hresp
  rw [← Router.store_reached] at hanswer
  refine ⟨resp, respond_of_caller hhandler hcaller hanswer, fun e he => ?_⟩
  obtain ⟨pushed, haccepted, hsame⟩ := Fidelity.accepted_of_pull hresp he
  refine ⟨pushed, accepts_of_accepted haccepted, hsame, ?_⟩
  intro A nonce key kind p hvalid hseal
  exact openJson_of_openPayload (Wire.depth_payload kind) hvalid
    (Fidelity.opens_as_pushed hsame (sealPayload_of_sealJson hseal))

/-- Whatever was sent to the server before, and however it was written, a pull reads as a page of
envelopes that arrived. -/
theorem payloads_arrive (F : Framework) (P : Platform) (cfg : Settings) (before : List RawEvent)
    (raw : RawRequest) (cursor : ℤ) (c : Caller) (httl : InI64 cfg.accessTtlSecs)
    (htimed : ∀ event ∈ before ++ [.request raw], event.Timed)
    (hnext : (Transport.reached F P cfg before).store.Counts)
    (hpull : raw.message.route F P = .pull cursor) (hget : raw.message.method ≠ .head)
    (hcaller : Router.caller P (Transport.reached F P cfg before).store (read F P raw) = some c) :
    ∃ resp, (respond F P cfg (Transport.reached F P cfg before) raw).status = 200 ∧
      (F.text.parse (respond F P cfg (Transport.reached F P cfg before) raw).body).bind
        (Wire.pullResponse P).decode = some resp ∧
      ∀ e ∈ resp.envelopes, Arrives P cfg F.text (before.map (readEvent F P)) e := by
  have hbefore : ∀ event ∈ before.map (readEvent F P), Served P event := by
    intro event hevent
    obtain ⟨raw', hraw', rfl⟩ := List.mem_map.mp hevent
    exact served_readEvent (htimed raw' (List.mem_append_left _ hraw'))
  have hnow : InI64 (read F P raw).now := htimed (.request raw) (by simp)
  rw [reached_read] at hnext hcaller ⊢
  obtain ⟨resp, hresp, harrives⟩ := pull_arrives F.text hpull hcaller
  have hstore : (Router.outcome P cfg (Router.reached P cfg (before.map (readEvent F P)))
      (read F P raw)).2 = (Router.reached P cfg (before.map (readEvent F P))).store := by
    have hendpoint : (read F P raw).endpoint = .pull cursor := hpull
    exact Router.run_of_reads (Router.reads_handler _ fun _ => by rw [Router.request, hendpoint])
  have hvalid := Words.valid_respond httl hnow (Http.wellFormed_route raw.message)
    (words_reached httl hbefore hnext) Router.wellFormed_reached (by rwa [hstore])
  rw [hresp] at hvalid
  have hraw : respond F P cfg (Router.reached P cfg (before.map (readEvent F P))) raw =
      ⟨200, Body.write F P (.pull resp)⟩ := by
    rw [respond, hresp]
    exact congrArg (RawResponse.mk 200) (if_neg hget)
  rw [hraw]
  exact ⟨resp, rfl, carried_write hvalid, harrives⟩

/-! ## A hostile server

A device opens whatever it is handed. As long as the server forges nothing, that is, as long as
nothing it hands out decrypts under the key but what was sealed with it, it can hand out old
records, leave some out and change the hints of any, and no more.
-/

/-- A record as a device has sealed it. -/
structure SealedRecord where
  envelope : Envelope
  payload : envelope.kind.Payload

variable (A : Aead) (T : Json.Text) (key : ContentKey)

def SealedRecord.Sealed (r : SealedRecord) : Prop :=
  (Wire.payload r.envelope.kind).valid r.payload ∧
    ∃ nonce, sealJson A T (Wire.payload r.envelope.kind) nonce key r.envelope.aad r.payload =
      .ok (r.envelope.nonce, r.envelope.ciphertext)

/-- Of what is handed out nothing decrypts under the key but what was sealed with it. -/
def Unforged (records : Set SealedRecord) (handed : Set Envelope) : Prop :=
  ∀ e ∈ handed, ∀ bytes, openPayload A key e.aad e.nonce e.ciphertext = .ok bytes →
    ∃ r ∈ records, r.envelope.nonce = e.nonce ∧ r.envelope.ciphertext = e.ciphertext

/-- No id of the two envelopes runs into the fields of the other. -/
def PlainIds (e e' : Envelope) : Prop :=
  InI64 e.updatedAt ∧ InI64 e'.updatedAt ∧ ¬ e.RunsInto e' ∧ ¬ e'.RunsInto e

variable {A} {T} {key} {r : SealedRecord} {records : Set SealedRecord} {handed : Set Envelope}

theorem sameHeader_iff (h : PlainIds e pushed) : e.SameHeader pushed ↔ e.aad = pushed.aad := by
  obtain ⟨he, he', hrun, hrun'⟩ := h
  rw [Envelope.aad_eq_iff he he']
  tauto

theorem openJson_eq_ok {α : Type} {c : Codec α} {aad nonce ciphertext : List UInt8} {value : α}
    (h : openJson A T c key aad nonce ciphertext = .ok value) :
    ∃ bytes, openPayload A key aad nonce ciphertext = .ok bytes := by
  unfold openJson at h
  cases hopen : openPayload A key aad nonce ciphertext with
  | error e =>
    rw [hopen] at h
    cases h
  | ok bytes => exact ⟨bytes, rfl⟩

theorem opens_sealed (h : r.Sealed A T key) :
    openJson A T (Wire.payload r.envelope.kind) key r.envelope.aad r.envelope.nonce
      r.envelope.ciphertext = .ok r.payload := by
  obtain ⟨hvalid, nonce, hseal⟩ := h
  exact openJson_of_openPayload
    (Wire.depth_payload _) hvalid (openPayload_of_sealPayload (sealPayload_of_sealJson hseal))

theorem payload_of_opens {kind : RecordKind} {q : kind.Payload} (hkind : r.envelope.kind = kind)
    (h : r.Sealed A T key)
    (hopen : openJson A T (Wire.payload kind) key r.envelope.aad r.envelope.nonce
      r.envelope.ciphertext = .ok q) : HEq r.payload q := by
  subst hkind
  rw [opens_sealed h] at hopen
  exact heq_of_eq (Except.ok.inj hopen)

theorem opens_of_payload {kind : RecordKind} {q : kind.Payload} (hkind : r.envelope.kind = kind)
    (h : r.Sealed A T key) (hq : HEq r.payload q) :
    openJson A T (Wire.payload kind) key r.envelope.aad r.envelope.nonce r.envelope.ciphertext =
      .ok q := by
  subst hkind
  rw [opens_sealed h]
  exact congrArg Except.ok (eq_of_heq hq)

/-- Whatever decrypts was sealed for the header it is under. -/
theorem sealed_of_opens (hA : A.Authentic) (hunforged : Unforged A key records handed)
    (hsealed : ∀ r ∈ records, r.Sealed A T key) (he : e ∈ handed) {bytes : List UInt8}
    (hopen : openPayload A key e.aad e.nonce e.ciphertext = .ok bytes) :
    ∃ r ∈ records, r.envelope.aad = e.aad ∧ r.envelope.nonce = e.nonce ∧
      r.envelope.ciphertext = e.ciphertext := by
  obtain ⟨r, hr, hnonce, hciphertext⟩ := hunforged e he bytes hopen
  obtain ⟨_, nonce, hseal⟩ := hsealed r hr
  rw [← hnonce, ← hciphertext] at hopen
  exact ⟨r, hr, (hA.aad_eq (sealPayload_of_sealJson hseal) hopen).symm, hnonce, hciphertext⟩

/-- What a device can be made to open, by whatever it is handed. -/
theorem hostile_server (A : Aead) (T : Json.Text) (key : ContentKey) (records : Set SealedRecord)
    (handed : Set Envelope) (hA : A.Authentic) (hsealed : ∀ r ∈ records, r.Sealed A T key)
    (hunforged : Unforged A key records handed)
    (hplain : ∀ r ∈ records, ∀ e ∈ handed, PlainIds r.envelope e) :
    ∀ e ∈ handed, ∀ q : e.kind.Payload,
      openJson A T (Wire.payload e.kind) key e.aad e.nonce e.ciphertext = .ok q ↔
        ∃ r ∈ records, r.envelope.SameHeader e ∧ r.envelope.nonce = e.nonce ∧
          r.envelope.ciphertext = e.ciphertext ∧ HEq r.payload q := by
  intro e he q
  constructor
  · intro hopen
    obtain ⟨bytes, hbytes⟩ := openJson_eq_ok hopen
    obtain ⟨r, hr, haad, hnonce, hciphertext⟩ := sealed_of_opens hA hunforged hsealed he hbytes
    have hheader := (sameHeader_iff (hplain r hr e he)).mpr haad
    rw [← haad, ← hnonce, ← hciphertext] at hopen
    exact ⟨r, hr, hheader, hnonce, hciphertext,
      payload_of_opens hheader.2.1 (hsealed r hr) hopen⟩
  · rintro ⟨r, hr, hheader, hnonce, hciphertext, hq⟩
    rw [← (sameHeader_iff (hplain r hr e he)).mp hheader, ← hnonce, ← hciphertext]
    exact opens_of_payload hheader.2.1 (hsealed r hr) hq

end Payloads

namespace Reference

open Crypto

def contentKey : ContentKey := ⟨List.replicate 32 0, by decide⟩

def drawn : XNonce := ⟨List.replicate 24 0, by decide⟩

def bare : Envelope := { host "theme" .personal none 5 with kind := .setting, nonce := drawn.bytes }

def dark : Payloads.SealedRecord where
  envelope := { bare with
    ciphertext := framed bare.aad ++
      utf8 (Json.print (Wire.settingPayload.encode ⟨"theme", "dark"⟩)) }
  payload := (⟨"theme", "dark"⟩ : SettingPayload)

def themed : List Event :=
  [.request (signUp "ada"),
    .request (http 1 "" (some "Bearer access-ada") (.push [dark.envelope]))]

def rehinted : Envelope := { dark.envelope with groupId := some "g", sort := 3, seq := 7 }

def postdated : Envelope := { dark.envelope with updatedAt := 6 }

def garbled : Envelope := { dark.envelope with ciphertext := [1] }

end Reference

namespace Payloads

open Crypto Transport

theorem dark_sealed : Reference.dark.Sealed .reference .compact Reference.contentKey :=
  ⟨.intro trivial trivial, Reference.drawn, by decide +kernel⟩

/-! ## The runs of Ada -/

theorem sendable_themed : ∀ event ∈ Reference.themed ++ [.request Reference.reading],
    Sendable Reference.framework Reference.platform event := by
  have hvalid : (Wire.envelope Reference.platform).valid Reference.dark.envelope :=
    Wire.valid_envelope.mpr (by decide +kernel)
  rintro event (_ | ⟨_, _ | ⟨_, _ | ⟨_, ⟨⟩⟩⟩⟩)
  · exact sendable_signUp
  · exact sendable_push hvalid (by decide +kernel)
  · exact sendable_reading

theorem page_themed :
    (Router.reached Reference.platform Reference.settings Reference.themed).store.Counts ∧
    Router.caller Reference.platform
      (Router.reached Reference.platform Reference.settings Reference.themed).store
      Reference.reading = some ⟨"ada"⟩ ∧
    (Router.reached Reference.platform Reference.settings
      (Reference.themed ++ [.request Reference.reading])).store.Counts ∧
    Router.respond Reference.platform Reference.settings
      (Router.reached Reference.platform Reference.settings Reference.themed) Reference.reading =
        .ok (.pull ⟨[{ Reference.dark.envelope with seq := 1 }], 1, false⟩) := by
  decide +kernel

/-- She reads the setting that she has sealed. -/
theorem theme_arrives : ∃ resp,
    (Reference.framework.text.parse
      (respond Reference.framework Reference.platform Reference.settings
        (Transport.reached Reference.framework Reference.platform Reference.settings
          (Reference.themed.map (sendEvent Reference.framework Reference.platform)))
        (send Reference.framework Reference.platform Reference.reading)).body).bind
          (Wire.pullResponse Reference.platform).decode = some resp ∧
    resp.envelopes ≠ [] ∧
    ∀ e ∈ resp.envelopes, openJson .reference .compact (Wire.payload .setting)
      Reference.contentKey e.aad e.nonce e.ciphertext = .ok ⟨"theme", "dark"⟩ := by
  obtain ⟨hnext, hcaller, hlast, hanswer⟩ := page_themed
  obtain ⟨hwf, hfits, _⟩ := sendable_reading Reference.reading rfl
  have hbefore : ∀ event ∈ Reference.themed,
      Sendable Reference.framework Reference.platform event :=
    fun event h => sendable_themed event (List.mem_append_left _ h)
  have htimed : ∀ event ∈ Reference.themed.map (sendEvent Reference.framework Reference.platform) ++
      [.request (send Reference.framework Reference.platform Reference.reading)], event.Timed := by
    simp [Reference.themed, sendEvent, RawEvent.Timed, send, Reference.signUp, Reference.http,
      Reference.reading, InI64]
  obtain ⟨resp, _, hread, harrives⟩ := payloads_arrive Reference.framework Reference.platform
    Reference.settings (Reference.themed.map (sendEvent Reference.framework Reference.platform))
    (send Reference.framework Reference.platform Reference.reading) 0 ⟨"ada"⟩ (by decide) htimed
    (by rwa [reached_send hbefore]) (Http.route_message hwf hfits) Method.noConfusion
    (by rwa [reached_send hbefore, read_send hwf hfits])
  obtain ⟨_, hcarried⟩ := respond_reached (by decide) hbefore
    (sendable_themed (.request Reference.reading) (by simp)) hlast
  rw [hanswer] at hcarried
  obtain rfl := Option.some.inj (hread.symm.trans hcarried)
  refine ⟨_, hread, List.cons_ne_nil _ _, ?_⟩
  intro e he
  obtain ⟨pushed, _, hsame, hopens⟩ := harrives e he
  obtain rfl := List.mem_singleton.mp he
  obtain ⟨haad, hnonce, hciphertext⟩ := hsame.sealed
  obtain ⟨hvalid, nonce, hseal⟩ := dark_sealed
  apply hopens .reference nonce Reference.contentKey .setting _ hvalid
  rw [← haad, ← hnonce, ← hciphertext]
  exact hseal

/-! ## What a server makes of her record -/

theorem dark_unforged : Unforged .reference Reference.contentKey {Reference.dark}
    {Reference.rehinted, Reference.postdated, Reference.garbled} := by
  have hclosed : openPayload .reference Reference.contentKey Reference.garbled.aad
      Reference.garbled.nonce Reference.garbled.ciphertext = .error .decrypt := by
    decide +kernel
  rintro e (rfl | rfl | rfl) bytes hopen
  · exact ⟨Reference.dark, rfl, rfl, rfl⟩
  · exact ⟨Reference.dark, rfl, rfl, rfl⟩
  · rw [hclosed] at hopen
    cases hopen

/-- With other hints it opens, with another clock or another payload it does not. -/
theorem only_dark_opens :
    openJson .reference .compact (Wire.payload .setting) Reference.contentKey
        Reference.rehinted.aad Reference.rehinted.nonce Reference.rehinted.ciphertext =
      .ok ⟨"theme", "dark"⟩ ∧
    ∀ e ∈ ({Reference.postdated, Reference.garbled} : Set Envelope), ∀ q : e.kind.Payload,
      openJson .reference .compact (Wire.payload e.kind) Reference.contentKey e.aad e.nonce
        e.ciphertext ≠ .ok q := by
  have hsealed : ∀ r ∈ ({Reference.dark} : Set SealedRecord),
      r.Sealed .reference .compact Reference.contentKey := by
    rintro _ rfl
    exact dark_sealed
  have hplain : ∀ r ∈ ({Reference.dark} : Set SealedRecord),
      ∀ e ∈ ({Reference.rehinted, Reference.postdated, Reference.garbled} : Set Envelope),
        PlainIds r.envelope e := by
    rintro _ rfl e (rfl | rfl | rfl)
    all_goals
      exact ⟨by decide, by decide, Envelope.not_runsInto_of_no_separator (by decide +kernel),
        Envelope.not_runsInto_of_no_separator (by decide +kernel)⟩
  have hserver := hostile_server .reference .compact Reference.contentKey {Reference.dark}
    {Reference.rehinted, Reference.postdated, Reference.garbled} reference_authentic hsealed
    dark_unforged hplain
  refine ⟨?_, ?_⟩
  · exact (hserver Reference.rehinted (Or.inl rfl) ⟨"theme", "dark"⟩).mpr
      ⟨Reference.dark, rfl, ⟨rfl, rfl, rfl, rfl⟩, rfl, rfl, HEq.rfl⟩
  · rintro e (rfl | rfl) q hopen
    · obtain ⟨_, rfl, hheader, _⟩ := (hserver Reference.postdated (Or.inr (Or.inl rfl)) q).mp hopen
      exact absurd hheader.2.2.1 (by decide)
    · obtain ⟨_, rfl, _, _, hciphertext, _⟩ :=
        (hserver Reference.garbled (Or.inr (Or.inr rfl)) q).mp hopen
      exact absurd hciphertext (by decide +kernel)

end Payloads
end RemotierSync
