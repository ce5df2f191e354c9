import RemotierSync.Router
import RemotierSync.Wire

/-!
# Requests and responses as text

What the router and its extractors read from a request, and the text that a response carries. A
`Message` is a request as it arrives; `Message.route` is the endpoint it stands for, or the refusal
it meets. What is routed is well formed, and every well-formed endpoint that fits is what its own
message is routed to.
-/

namespace RemotierSync

inductive Method where
  | get
  | head
  | post
  | delete
  | other (name : String)
deriving DecidableEq

/-- The segments of the path are as they came in, the pairs of the query are decoded, and a body is
UTF-8. -/
structure Message where
  method : Method
  path : List String
  query : List (String × String)
  contentType : Option String
  contentLength : Option ℕ
  body : String
deriving DecidableEq

/-- The web framework with its JSON: how a segment that is captured from a path is decoded, which
content types are JSON, how much of a body an extractor reads, and how an extractor refuses. -/
structure Framework where
  text : Json.Text
  segment : String → Option String
  encodeSegment : String → String
  segment_encode : ∀ s, segment (encodeSegment s) = some s
  segment_eq_empty : ∀ {s}, segment s = some "" ↔ s = ""
  isJson : String → Bool
  isJson_json : isJson "application/json" = true
  bodyLimit : ℕ
  refusal : Message → Rejection

def requestBodyLimit : ℕ := 16 * 1024 * 1024

def signedValue (sign ds : List Char) : ℤ :=
  if sign = ['-'] then -(Nat.ofDigitChars 10 ds 0 : ℤ) else Nat.ofDigitChars 10 ds 0

def parseI64 (s : String) : Option ℤ :=
  let (sign, ds) := Json.sign s.toList
  if ds ≠ [] ∧ ds.all Char.isDigit ∧ InI64 (signedValue sign ds) then some (signedValue sign ds)
  else none

def printI64 (n : ℤ) : String := String.ofList (Json.intChars n)

/-- A field of a query: refused if it comes twice. -/
def queryField (name : String) (query : List (String × String)) : Option (Option String) :=
  match query.filter (fun p => p.1 = name) with
  | [] => some none
  | [(_, value)] => some (some value)
  | _ => none

namespace Message

variable (F : Framework) (P : Platform)

def json {α : Type} (c : Codec α) (m : Message) : Option α :=
  if m.contentType.any F.isJson ∧ m.body.utf8ByteSize ≤ F.bodyLimit then
    (F.text.parse m.body).bind c.decode
  else none

def notFound : Endpoint := .malformed false ⟨404, "", by decide⟩

def notAllowed : Endpoint := .malformed false ⟨405, "", by decide⟩

def get (m : Message) (endpoint : Endpoint) : Endpoint :=
  match m.method with
  | .get => endpoint
  | .head => endpoint
  | _ => notAllowed

def post (m : Message) (endpoint : Endpoint) : Endpoint :=
  match m.method with
  | .post => endpoint
  | _ => notAllowed

def delete (m : Message) (endpoint : Endpoint) : Endpoint :=
  match m.method with
  | .delete => endpoint
  | _ => notAllowed

def extracted {α : Type} (m : Message) (authenticated : Bool) (make : α → Endpoint) :
    Option α → Endpoint
  | some a => make a
  | none => .malformed authenticated (F.refusal m)

def cursor (m : Message) : Option ℤ :=
  match queryField "cursor" m.query with
  | some none => some 0
  | some (some value) => parseI64 value
  | none => none

def email (m : Message) : Option String := (queryField "email" m.query).join

def ids (first second : String) : Option (String × String) :=
  (F.segment first).bind (fun s => (F.segment second).map (Prod.mk s))

/-- The fixed segments of a route are compared undecoded. -/
def route (m : Message) : Endpoint :=
  if m.contentLength.any (fun n => requestBodyLimit < n) then
    .malformed false ⟨413, "length limit exceeded", by decide⟩
  else match m.path with
  | ["v1", "instance"] => m.get .info
  | ["v1", "auth", "register"] =>
    m.post (m.extracted F false .register (m.json F Wire.registerRequest))
  | ["v1", "auth", "login"] => m.post (m.extracted F false .login (m.json F Wire.loginRequest))
  | ["v1", "auth", "refresh"] =>
    m.post (m.extracted F false .refresh (m.json F Wire.refreshRequest))
  | ["v1", "auth", "recover"] =>
    m.post (m.extracted F false .recover (m.json F Wire.recoverRequest))
  | ["v1", "auth", "rewrap"] => m.post (m.extracted F true .rewrap (m.json F Wire.rewrapRequest))
  | ["v1", "auth", "logout"] => m.post .logout
  | ["v1", "account", "keys"] => m.get .keys
  | ["v1", "users", "lookup"] => m.get (m.extracted F true .lookup m.email)
  | ["v1", "sync"] =>
    match m.method with
    | .post => m.extracted F true .push (m.json F (Wire.pushRequest P))
    | _ => m.get (m.extracted F true .pull m.cursor)
  | ["v1", "shares"] =>
    match m.method with
    | .post => m.extracted F true .create (m.json F Wire.shareRequest)
    | _ => m.get .mine
  | ["v1", "shares", groupId] =>
    if groupId = "" then notFound else m.get (m.extracted F true .list (F.segment groupId))
  | ["v1", "shares", groupId, userId] =>
    if groupId = "" ∨ userId = "" then notFound
    else m.delete (m.extracted F true (fun p => .remove p.1 p.2) (ids F groupId userId))
  | ["v1", "devices"] => m.get .devices
  | _ => notFound

end Message

/-! ## What is sent -/

def Message.plain (method : Method) (path : List String) : Message where
  method := method
  path := path
  query := []
  contentType := none
  contentLength := none
  body := ""

def Message.posting (path : List String) (body : String) : Message where
  method := .post
  path := path
  query := []
  contentType := some "application/json"
  contentLength := some body.utf8ByteSize
  body := body

namespace Endpoint

variable (F : Framework) (P : Platform)

def write {α : Type} (c : Codec α) (a : α) : String := F.text.print (c.encode a)

/-- The request of a client that serialises the types of the protocol. -/
def message : Endpoint → Message
  | .info => .plain .get ["v1", "instance"]
  | .register body => .posting ["v1", "auth", "register"] (write F Wire.registerRequest body)
  | .login body => .posting ["v1", "auth", "login"] (write F Wire.loginRequest body)
  | .refresh refreshToken =>
    .posting ["v1", "auth", "refresh"] (write F Wire.refreshRequest refreshToken)
  | .recover body => .posting ["v1", "auth", "recover"] (write F Wire.recoverRequest body)
  | .rewrap body => .posting ["v1", "auth", "rewrap"] (write F Wire.rewrapRequest body)
  | .logout => .plain .post ["v1", "auth", "logout"]
  | .keys => .plain .get ["v1", "account", "keys"]
  | .lookup email =>
    { Message.plain .get ["v1", "users", "lookup"] with query := [("email", email)] }
  | .pull cursor =>
    { Message.plain .get ["v1", "sync"] with query := [("cursor", printI64 cursor)] }
  | .push envelopes => .posting ["v1", "sync"] (write F (Wire.pushRequest P) envelopes)
  | .mine => .plain .get ["v1", "shares"]
  | .create body => .posting ["v1", "shares"] (write F Wire.shareRequest body)
  | .list groupId => .plain .get ["v1", "shares", F.encodeSegment groupId]
  | .remove groupId userId =>
    .plain .delete ["v1", "shares", F.encodeSegment groupId, F.encodeSegment userId]
  | .devices => .plain .get ["v1", "devices"]
  | .malformed _ _ => .plain .get []

/-- What a request can ask for: the values that its extractors read. -/
def WellFormed : Endpoint → Prop
  | .register body => Wire.registerRequest.valid body
  | .login body => Wire.loginRequest.valid body
  | .refresh refreshToken => Wire.refreshRequest.valid refreshToken
  | .recover body => Wire.recoverRequest.valid body
  | .rewrap body => Wire.rewrapRequest.valid body
  | .pull cursor => InI64 cursor
  | .push envelopes => (Wire.pushRequest P).valid envelopes
  | .create body => Wire.shareRequest.valid body
  | .list groupId => groupId ≠ ""
  | .remove groupId userId => groupId ≠ "" ∧ userId ≠ ""
  | _ => True

/-- The endpoint is no refusal, and its body is within the limits. -/
def Fits (e : Endpoint) : Prop :=
  (∀ authenticated rejection, e ≠ .malformed authenticated rejection) ∧
    (e.message F P).body.utf8ByteSize ≤ F.bodyLimit ∧
    (e.message F P).body.utf8ByteSize ≤ requestBodyLimit

end Endpoint

namespace Http

open Message Endpoint

variable {F : Framework} {P : Platform} {m : Message} {e : Endpoint}

theorem sign_intChars (n : ℤ) : Json.sign (Json.intChars n) =
    (if n < 0 then ['-'] else [], Nat.toDigits 10 n.natAbs) := by
  unfold Json.intChars
  split_ifs with h
  · rfl
  · cases hd : Nat.toDigits 10 n.natAbs with
    | nil => exact absurd hd Nat.toDigits_ne_nil
    | cons d ds =>
      have hdigit : d.isDigit :=
        Nat.isDigit_of_mem_toDigits (b := 10) (by decide) (by decide) (hd ▸ List.mem_cons_self)
      unfold Json.sign
      split
      · next heq =>
        rw [(List.cons.inj heq).1] at hdigit
        exact absurd hdigit (by decide)
      · next heq =>
        rw [(List.cons.inj heq).1] at hdigit
        exact absurd hdigit (by decide)
      · rfl

theorem signedValue_intChars (n : ℤ) :
    signedValue (if n < 0 then ['-'] else []) (Nat.toDigits 10 n.natAbs) = n := by
  rw [signedValue, Nat.ofDigitChars_ten_toDigits]
  by_cases h : n < 0
  · rw [if_pos h, if_pos rfl]
    omega
  · rw [if_neg h, if_neg (by simp)]
    omega

theorem parseI64_printI64 {n : ℤ} (h : InI64 n) : parseI64 (printI64 n) = some n := by
  have hdigits : (Nat.toDigits 10 n.natAbs).all Char.isDigit = true :=
    List.all_eq_true.mpr
      (fun c hc => Nat.isDigit_of_mem_toDigits (by decide) (by decide) hc)
  rw [parseI64, printI64, String.toList_ofList, sign_intChars]
  simp only [signedValue_intChars]
  exact if_pos ⟨Nat.toDigits_ne_nil, hdigits, h⟩

theorem inI64_of_parseI64 {s : String} {n : ℤ} (h : parseI64 s = some n) : InI64 n := by
  unfold parseI64 at h
  dsimp only at h
  split_ifs at h with hread
  exact Option.some.inj h ▸ hread.2.2

theorem valid_of_json {α : Type} {c : Codec α} {a : α} (h : m.json F c = some a) : c.valid a := by
  unfold Message.json at h
  split_ifs at h
  obtain ⟨j, _, hj⟩ := Option.bind_eq_some_iff.mp h
  exact c.valid_of_decode hj

theorem parse_write {α : Type} {c : Codec α} {a : α} (hdepth : c.depth ≤ Json.maxDepth)
    (ha : c.valid a) : (F.text.parse (write F c a)).bind c.decode = some a := by
  rw [write, F.text.parse_print ((c.plain_encode ha).mono hdepth), Option.bind_some,
    c.decode_encode ha]

theorem json_posting {α : Type} {c : Codec α} {a : α} {path : List String}
    (hdepth : c.depth ≤ Json.maxDepth) (ha : c.valid a)
    (hsize : (write F c a).utf8ByteSize ≤ F.bodyLimit) :
    (Message.posting path (write F c a)).json F c = some a := by
  have htype : (some "application/json").any F.isJson = true := F.isJson_json
  rw [Message.json, if_pos ⟨htype, hsize⟩]
  exact parse_write hdepth ha

theorem wellFormed_get (h : e.WellFormed P) : (m.get e).WellFormed P := by
  unfold Message.get
  split <;> first | exact h | trivial

theorem wellFormed_post (h : e.WellFormed P) : (m.post e).WellFormed P := by
  unfold Message.post
  split <;> first | exact h | trivial

theorem wellFormed_delete (h : e.WellFormed P) : (m.delete e).WellFormed P := by
  unfold Message.delete
  split <;> first | exact h | trivial

theorem wellFormed_extracted {α : Type} {authenticated : Bool} {make : α → Endpoint}
    {o : Option α} (h : ∀ a, o = some a → (make a).WellFormed P) :
    (m.extracted F authenticated make o).WellFormed P := by
  cases o with
  | none => trivial
  | some a => exact h a rfl

theorem inI64_cursor {n : ℤ} (h : m.cursor = some n) : InI64 n := by
  unfold Message.cursor at h
  split at h
  · obtain rfl := Option.some.inj h
    decide
  · exact inI64_of_parseI64 h
  · cases h

theorem segment_ne_empty {raw s : String} (hraw : raw ≠ "") (h : F.segment raw = some s) :
    s ≠ "" := by
  rintro rfl
  exact hraw (F.segment_eq_empty.mp h)

theorem encodeSegment_ne_empty {s : String} (h : s ≠ "") : F.encodeSegment s ≠ "" :=
  fun hempty => h (Option.some.inj
    ((F.segment_encode s).symm.trans (F.segment_eq_empty.mpr hempty)))

theorem ids_encode (first second : String) :
    ids F (F.encodeSegment first) (F.encodeSegment second) = some (first, second) := by
  rw [ids, F.segment_encode, F.segment_encode]
  rfl

/-- Whatever arrives, what a handler is given is well formed. -/
theorem wellFormed_route (m : Message) : (m.route F P).WellFormed P := by
  unfold Message.route
  split_ifs
  · trivial
  split
  case h_2 => exact wellFormed_post (wellFormed_extracted fun _ => valid_of_json)
  case h_3 => exact wellFormed_post (wellFormed_extracted fun _ => valid_of_json)
  case h_4 => exact wellFormed_post (wellFormed_extracted fun _ => valid_of_json)
  case h_5 => exact wellFormed_post (wellFormed_extracted fun _ => valid_of_json)
  case h_6 => exact wellFormed_post (wellFormed_extracted fun _ => valid_of_json)
  case h_9 => exact wellFormed_get (wellFormed_extracted fun _ _ => trivial)
  case h_10 =>
    split
    · exact wellFormed_extracted fun _ => valid_of_json
    · exact wellFormed_get (wellFormed_extracted fun _ => inI64_cursor)
  case h_11 =>
    split
    · exact wellFormed_extracted fun _ => valid_of_json
    · exact wellFormed_get trivial
  case h_12 groupId _ =>
    split_ifs with hempty
    · trivial
    · exact wellFormed_get (wellFormed_extracted fun _ => segment_ne_empty hempty)
  case h_13 groupId userId _ =>
    split_ifs with hempty
    · trivial
    · obtain ⟨hgroup, huser⟩ := not_or.mp hempty
      refine wellFormed_delete (wellFormed_extracted ?_)
      rintro p hp
      obtain ⟨g, hg, hp⟩ := Option.bind_eq_some_iff.mp hp
      obtain ⟨u, hu, rfl⟩ := Option.map_eq_some_iff.mp hp
      exact ⟨segment_ne_empty hgroup hg, segment_ne_empty huser hu⟩
  case h_15 => trivial
  all_goals first | exact wellFormed_get trivial | exact wellFormed_post trivial

theorem extracted_posting {α : Type} {c : Codec α} {a : α} {path : List String}
    {authenticated : Bool} {make : α → Endpoint} (hdepth : c.depth ≤ Json.maxDepth)
    (ha : c.valid a) (hsize : (write F c a).utf8ByteSize ≤ F.bodyLimit) :
    (Message.posting path (write F c a)).extracted F authenticated make
      ((Message.posting path (write F c a)).json F c) = make a := by
  rw [json_posting hdepth ha hsize]
  rfl

theorem contentLength_message (e : Endpoint) : (e.message F P).contentLength = none ∨
    (e.message F P).contentLength = some (e.message F P).body.utf8ByteSize := by
  cases e <;> first | exact Or.inl rfl | exact Or.inr rfl

/-- A well-formed endpoint is what its own request is routed to. -/
theorem route_message (hwf : e.WellFormed P) (hfits : e.Fits F P) :
    (e.message F P).route F P = e := by
  obtain ⟨hrefusal, hbody, hlimit⟩ := hfits
  have hlength : ¬ (e.message F P).contentLength.any (fun n => requestBodyLimit < n) := by
    rcases contentLength_message (F := F) (P := P) e with h | h
    · simp [h]
    · simpa [h] using hlimit
  unfold Message.route
  rw [if_neg hlength]
  cases e with
  | malformed authenticated rejection => exact absurd rfl (hrefusal _ _)
  | register body =>
    exact extracted_posting (c := Wire.registerRequest) (by decide) hwf hbody
  | login body => exact extracted_posting (c := Wire.loginRequest) (by decide) hwf hbody
  | refresh refreshToken =>
    exact extracted_posting (c := Wire.refreshRequest) (by decide) hwf hbody
  | recover body => exact extracted_posting (c := Wire.recoverRequest) (by decide) hwf hbody
  | rewrap body => exact extracted_posting (c := Wire.rewrapRequest) (by decide) hwf hbody
  | push envelopes =>
    have hdepth : (Wire.pushRequest P).depth ≤ Json.maxDepth :=
      show 4 ≤ Json.maxDepth by decide
    exact extracted_posting (c := Wire.pushRequest P) hdepth hwf hbody
  | create body => exact extracted_posting (c := Wire.shareRequest) (by decide) hwf hbody
  | lookup email => rfl
  | pull cursor =>
    have hread : ((pull cursor).message F P).cursor = some cursor := parseI64_printI64 hwf
    change ((pull cursor).message F P).extracted F true .pull ((pull cursor).message F P).cursor = _
    rw [hread]
    rfl
  | list groupId =>
    refine (if_neg (encodeSegment_ne_empty hwf)).trans ?_
    rw [F.segment_encode]
    rfl
  | remove groupId userId =>
    obtain ⟨hgroup, huser⟩ := hwf
    have hgroup' := encodeSegment_ne_empty (F := F) hgroup
    have huser' := encodeSegment_ne_empty (F := F) huser
    refine (if_neg (not_or.mpr ⟨hgroup', huser'⟩)).trans ?_
    rw [ids_encode]
    rfl
  | _ => rfl

end Http
end RemotierSync
