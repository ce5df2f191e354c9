import RemotierSync.Words

/-!
# Runs over text

The server as its clients see it: requests come in as messages and responses go out as text. A run
on any messages is the run of the router on what is read of them, and what is read is well formed
(`served_readEvent`). On the messages of well-formed requests it is the run of the router on these
requests, and the text of each response is read back as what the router has answered.
-/

namespace RemotierSync

structure RawRequest where
  now : ℤ
  instant : ℕ
  peer : IpAddr
  authorization : Option String
  newId : String
  salts : Auth.Salts
  minted : Auth.Minted
  message : Message

structure RawResponse where
  status : ℕ
  body : String
deriving DecidableEq

inductive RawEvent where
  | request (raw : RawRequest)
  | restart

def RawEvent.Timed : RawEvent → Prop
  | .request raw => InI64 raw.now
  | .restart => True

def Body.write (F : Framework) (P : Platform) : Body → String
  | .empty => ""
  | .instanceInfo i => Endpoint.write F Wire.instanceInfo i
  | .session s => Endpoint.write F Wire.session s
  | .keyMaterial k => Endpoint.write F Wire.keyMaterial k
  | .userLookup u => Endpoint.write F Wire.userLookup u
  | .pull r => Endpoint.write F (Wire.pullResponse P) r
  | .push r => Endpoint.write F Wire.pushResponse r
  | .shares l => Endpoint.write F (Codec.list Wire.share) l
  | .devices l => Endpoint.write F (Codec.list Wire.device) l
  | .error e => Endpoint.write F Wire.apiError e
  | .text t => t

/-- Read as the type that the body has, the text is the body. -/
def Body.Carried (F : Framework) (P : Platform) (text : String) : Body → Prop
  | .empty => text = ""
  | .instanceInfo i => (F.text.parse text).bind Wire.instanceInfo.decode = some i
  | .session s => (F.text.parse text).bind Wire.session.decode = some s
  | .keyMaterial k => (F.text.parse text).bind Wire.keyMaterial.decode = some k
  | .userLookup u => (F.text.parse text).bind Wire.userLookup.decode = some u
  | .pull r => (F.text.parse text).bind (Wire.pullResponse P).decode = some r
  | .push r => (F.text.parse text).bind Wire.pushResponse.decode = some r
  | .shares l => (F.text.parse text).bind (Codec.list Wire.share).decode = some l
  | .devices l => (F.text.parse text).bind (Codec.list Wire.device).decode = some l
  | .error e => (F.text.parse text).bind Wire.apiError.decode = some e
  | .text t => text = t

namespace Transport

open SqliteStore

variable (F : Framework) (P : Platform) (cfg : Settings)

def read (raw : RawRequest) : HttpRequest where
  now := raw.now
  instant := raw.instant
  peer := raw.peer
  authorization := raw.authorization
  newId := raw.newId
  salts := raw.salts
  minted := raw.minted
  endpoint := raw.message.route F P

def send (req : HttpRequest) : RawRequest where
  now := req.now
  instant := req.instant
  peer := req.peer
  authorization := req.authorization
  newId := req.newId
  salts := req.salts
  minted := req.minted
  message := req.endpoint.message F P

def readEvent : RawEvent → Event
  | .request raw => .request (read F P raw)
  | .restart => .restart

def sendEvent : Event → RawEvent
  | .request req => .request (send F P req)
  | .restart => .restart

def step (s : AppState) (event : RawEvent) : AppState := Router.step P cfg s (readEvent F P event)

def reached (events : List RawEvent) : AppState :=
  History.run (step F P cfg) (.boot .migrated) events

/-- The response to a `HEAD` has no body. -/
def respond (s : AppState) (raw : RawRequest) : RawResponse :=
  let response := Router.respond P cfg s (read F P raw)
  ⟨response.status, if raw.message.method = .head then "" else response.body.write F P⟩

/-- What is served is well formed, every well-formed endpoint that fits can be asked for, and a
message that stands for none is refused and changes nothing. -/
structure Admits : Prop where
  wellFormed : ∀ m : Message, (m.route F P).WellFormed P
  routed : ∀ e : Endpoint, e.WellFormed P → e.Fits F P → (e.message F P).route F P = e
  refused : ∀ s raw authenticated rejection,
    raw.message.route F P = .malformed authenticated rejection →
      step F P cfg s (.request raw) = s ∧ 400 ≤ (respond F P cfg s raw).status

/-- A run over text and the run of the router that it stands for. -/
structure Transparent (events : List Event) : Prop where
  state : reached F P cfg (events.map (sendEvent F P)) = Router.reached P cfg events
  answers : ∀ before req later, events = before ++ .request req :: later →
    let response := Router.respond P cfg (Router.reached P cfg before) req
    let raw := respond F P cfg (reached F P cfg (before.map (sendEvent F P))) (send F P req)
    raw.status = response.status ∧ response.body.Carried F P raw.body

/-- Well-formed requests, and clocks that are words. -/
def Served (event : Event) : Prop :=
  ∀ req, event = .request req → req.endpoint.WellFormed P ∧ InI64 req.now

/-- Requests that are served and fit. -/
def Sendable (event : Event) : Prop :=
  ∀ req, event = .request req →
    req.endpoint.WellFormed P ∧ req.endpoint.Fits F P ∧ InI64 req.now

variable {F} {P} {cfg} {s : AppState} {req : HttpRequest} {event : Event} {events : List Event}
  {b : Body}

theorem carried_write (h : b.Valid P) : b.Carried F P (b.write F P) := by
  cases b with
  | empty => rfl
  | text t => rfl
  | instanceInfo i => exact Http.parse_write (by decide) h
  | session s => exact Http.parse_write (by decide) h
  | keyMaterial k => exact Http.parse_write (by decide) h
  | userLookup u => exact Http.parse_write (by decide) h
  | pull r => exact Http.parse_write (show 4 ≤ Json.maxDepth by decide) h
  | push r => exact Http.parse_write (by decide) h
  | shares l => exact Http.parse_write (by decide) h
  | devices l => exact Http.parse_write (by decide) h
  | error e => exact Http.parse_write (by decide) h

theorem read_send (hwf : req.endpoint.WellFormed P) (hfits : req.endpoint.Fits F P) :
    read F P (send F P req) = req := by
  have hroute := Http.route_message hwf hfits
  obtain ⟨now, instant, peer, authorization, newId, salts, minted, endpoint⟩ := req
  simp only [read, send] at hroute ⊢
  rw [hroute]

variable (P) (cfg) (s) in
theorem outcome_malformed {authenticated : Bool} {rejection : Rejection}
    (h : req.endpoint = .malformed authenticated rejection) :
    Router.outcome P cfg s req = (.ok rejection.intoResponse, s.store) ∨
      Router.outcome P cfg s req = (.error .unauthorised, s.store) := by
  rw [Router.outcome, Router.handler, h]
  cases authenticated with
  | false => exact Or.inl rfl
  | true =>
    dsimp only
    rw [Router.run_withCaller]
    cases Router.caller P s.store req with
    | none => exact Or.inr rfl
    | some c => exact Or.inl rfl

theorem refused_unchanged {raw : RawRequest} {authenticated : Bool} {rejection : Rejection}
    (h : raw.message.route F P = .malformed authenticated rejection) :
    step F P cfg s (.request raw) = s ∧ 400 ≤ (respond F P cfg s raw).status := by
  have hendpoint : (read F P raw).endpoint = .malformed authenticated rejection := h
  have hguarded : (read F P raw).endpoint.guarded = false := by
    rw [hendpoint]
    rfl
  have hout := outcome_malformed P cfg s hendpoint
  have hstatus : 400 ≤ (Router.respond P cfg s (read F P raw)).status := by
    rcases hout with hout | hout
    · rw [Router.respond, hout]
      exact rejection.status_ge
    · rw [Router.respond, hout]
      exact show 400 ≤ 401 by decide
  have hstore : (Router.outcome P cfg s (read F P raw)).2 = s.store := by
    rcases hout with hout | hout <;> rw [hout]
  refine ⟨?_, hstatus⟩
  change Router.after P cfg s (read F P raw) = s
  rw [Router.after, hstore, hguarded]
  rfl

theorem requests_admitted (F : Framework) (P : Platform) (cfg : Settings) : Admits F P cfg where
  wellFormed := Http.wellFormed_route
  routed _ := Http.route_message
  refused _ _ _ _ := refused_unchanged

theorem readEvent_sendEvent (h : Sendable F P event) :
    readEvent F P (sendEvent F P event) = event := by
  cases event with
  | restart => rfl
  | request req =>
    obtain ⟨hwf, hfits, _⟩ := h req rfl
    exact congrArg Event.request (read_send hwf hfits)

theorem reached_read (raws : List RawEvent) :
    reached F P cfg raws = Router.reached P cfg (raws.map (readEvent F P)) := by
  rw [Router.reached, History.run, List.foldl_map]
  rfl

theorem reached_send (h : ∀ event ∈ events, Sendable F P event) :
    reached F P cfg (events.map (sendEvent F P)) = Router.reached P cfg events := by
  have hread : (events.map (sendEvent F P)).map (readEvent F P) = events := by
    rw [List.map_map]
    exact (List.map_congr_left (fun event he => readEvent_sendEvent (h event he))).trans
      (List.map_id _)
  rw [reached_read, hread]

theorem Sendable.served (h : Sendable F P event) : Served P event := by
  intro req hreq
  obtain ⟨hwf, _, hnow⟩ := h req hreq
  exact ⟨hwf, hnow⟩

theorem served_readEvent {raw : RawEvent} (h : raw.Timed) : Served P (readEvent F P raw) := by
  cases raw with
  | restart => simp [Served, readEvent]
  | request raw =>
    rintro _ ⟨⟩
    exact ⟨Http.wellFormed_route _, h⟩

theorem next_le_after : s.store.next ≤ (Router.after P cfg s req).store.next :=
  (grows_run (Router.handler P cfg (Router.admitted s req) req)).1

variable (P) (cfg) in
theorem next_le_reached (before later : List Event) :
    (Router.reached P cfg before).store.next ≤
      (Router.reached P cfg (before ++ later)).store.next := by
  induction later using List.reverseRecOn with
  | nil => rw [List.append_nil]
  | append_singleton later event ih =>
    rw [← List.append_assoc, Router.reached_snoc]
    cases event with
    | restart => exact ih
    | request req => exact ih.trans next_le_after

/-- The integers of the store are words for as long as the counter is one. -/
theorem words_reached (httl : InI64 cfg.accessTtlSecs) (h : ∀ event ∈ events, Served P event)
    (hnext : (Router.reached P cfg events).store.Counts) :
    Words (Router.reached P cfg events).store.toTables := by
  induction events using List.reverseRecOn with
  | nil => exact Words.words_migrated
  | append_singleton events event ih =>
    have hgrows := next_le_reached P cfg events [event]
    have hbefore := ih (fun e he => h e (List.mem_append_left _ he)) (hnext.of_le hgrows)
    rw [Router.reached_snoc] at hnext ⊢
    cases event with
    | restart => exact hbefore
    | request req =>
      obtain ⟨hwf, hnow⟩ := h _ (List.mem_append_right _ (List.mem_singleton_self _)) req rfl
      exact (Words.words_outcome httl hnow hwf hbefore Router.wellFormed_reached hnext).1

/-- A request of a client is answered with a text that carries the answer of the router. -/
theorem respond_send (hwf : req.endpoint.WellFormed P) (hfits : req.endpoint.Fits F P)
    (hvalid : (Router.respond P cfg s req).body.Valid P) :
    (respond F P cfg s (send F P req)).status = (Router.respond P cfg s req).status ∧
      (Router.respond P cfg s req).body.Carried F P (respond F P cfg s (send F P req)).body := by
  have hhead : (send F P req).message.method ≠ .head := by
    change (req.endpoint.message F P).method ≠ .head
    cases req.endpoint <;> exact Method.noConfusion
  unfold respond
  rw [read_send hwf hfits]
  dsimp only
  rw [if_neg hhead]
  exact ⟨rfl, carried_write hvalid⟩

theorem respond_reached {before : List Event} (httl : InI64 cfg.accessTtlSecs)
    (hbefore : ∀ event ∈ before, Sendable F P event) (hreq : Sendable F P (.request req))
    (hnext : (Router.reached P cfg (before ++ [.request req])).store.Counts) :
    (respond F P cfg (reached F P cfg (before.map (sendEvent F P))) (send F P req)).status =
        (Router.respond P cfg (Router.reached P cfg before) req).status ∧
      (Router.respond P cfg (Router.reached P cfg before) req).body.Carried F P
        (respond F P cfg (reached F P cfg (before.map (sendEvent F P))) (send F P req)).body := by
  obtain ⟨hwf, hfits, hnow⟩ := hreq req rfl
  have hwords := words_reached httl (fun event h => (hbefore event h).served)
    (hnext.of_le (next_le_reached P cfg before [.request req]))
  have hafter : (Router.outcome P cfg (Router.reached P cfg before) req).2.Counts := by
    rw [Router.reached_snoc] at hnext
    exact hnext
  rw [reached_send hbefore]
  exact respond_send hwf hfits
    (Words.valid_respond httl hnow hwf hwords Router.wellFormed_reached hafter)

theorem wire_transparent (F : Framework) (P : Platform) (cfg : Settings) (events : List Event)
    (httl : InI64 cfg.accessTtlSecs) (hsend : ∀ event ∈ events, Sendable F P event)
    (hnext : (Router.reached P cfg events).store.Counts) :
    Transparent F P cfg events where
  state := reached_send hsend
  answers before req later hevents := by
    subst hevents
    have hbefore : ∀ event ∈ before, Sendable F P event :=
      fun event h => hsend event (List.mem_append_left _ h)
    have hlast := next_le_reached P cfg (before ++ [.request req]) later
    rw [List.append_assoc, List.singleton_append] at hlast
    exact respond_reached httl hbefore (hsend (.request req) (by simp)) (hnext.of_le hlast)

end Transport

namespace Reference

def platform : Platform := Platform.reference.withText .compact id

def framework : Framework where
  text := .compact
  segment := some
  encodeSegment := id
  segment_encode _ := rfl
  segment_eq_empty := Option.some_inj
  isJson contentType := contentType = "application/json"
  isJson_json := rfl
  bodyLimit := 2 * 1024 * 1024
  refusal _ := ⟨422, "", by decide⟩

def visited : List Event :=
  [.request (signUp "ada"),
    .request (http 1 "" (some "Bearer access-ada") (.push [host "h" .personal none 1]))]

def reading : HttpRequest := http 2 "" (some "Bearer access-ada") (.pull 0)

def visit : List Event := visited ++ [.request reading]

end Reference

namespace Transport

theorem fits_posting {e : Endpoint} {path : List String} {j : Json}
    (hrefusal : ∀ authenticated rejection, e ≠ .malformed authenticated rejection)
    (hmessage : e.message Reference.framework Reference.platform = .posting path (Json.print j))
    (hlength : 4 * (Json.chars j).length ≤ 2 * 1024 * 1024) :
    e.Fits Reference.framework Reference.platform := by
  have hsize := (Json.utf8ByteSize_print_le j).trans hlength
  refine ⟨hrefusal, ?_⟩
  rw [hmessage]
  exact ⟨hsize, hsize.trans (by decide)⟩

theorem sendable_request {req : HttpRequest} (hwf : req.endpoint.WellFormed Reference.platform)
    (hfits : req.endpoint.Fits Reference.framework Reference.platform) (hnow : InI64 req.now) :
    Sendable Reference.framework Reference.platform (.request req) := by
  rintro _ ⟨⟩
  exact ⟨hwf, hfits, hnow⟩

theorem sendable_signUp :
    Sendable Reference.framework Reference.platform (.request (Reference.signUp "ada")) := by
  have hkeys := Wire.valid_keyMaterial Reference.keys
  refine sendable_request ?_
    (fits_posting (fun _ _ => Endpoint.noConfusion) rfl (by decide +kernel)) (by decide)
  exact .intro trivial (.intro trivial (.intro hkeys (.intro hkeys (.intro trivial
    (.intro trivial trivial)))))

theorem sendable_push {e : Envelope} (hvalid : (Wire.envelope Reference.platform).valid e)
    (hlength : 4 * (Json.chars ((Wire.pushRequest Reference.platform).encode [e])).length ≤
      2 * 1024 * 1024) :
    Sendable Reference.framework Reference.platform
      (.request (Reference.http 1 "" (some "Bearer access-ada") (.push [e]))) := by
  refine sendable_request ?_ (fits_posting (fun _ _ => Endpoint.noConfusion) rfl hlength)
    (show InI64 0 by decide)
  intro e' he
  obtain rfl := List.mem_singleton.mp he
  exact hvalid

theorem sendable_reading :
    Sendable Reference.framework Reference.platform (.request Reference.reading) :=
  sendable_request (show InI64 0 by decide)
    ⟨fun _ _ => Endpoint.noConfusion, by decide, by decide⟩ (by decide)

theorem sendable_visit :
    ∀ event ∈ Reference.visit, Sendable Reference.framework Reference.platform event := by
  have hvalid : (Wire.envelope Reference.platform).valid (Reference.host "h" .personal none 1) :=
    Wire.valid_envelope.mpr (by decide)
  rintro event (_ | ⟨_, _ | ⟨_, _ | ⟨_, ⟨⟩⟩⟩⟩)
  · exact sendable_signUp
  · exact sendable_push hvalid (by decide +kernel)
  · exact sendable_reading

theorem visit_transparent :
    Transparent Reference.framework Reference.platform Reference.settings Reference.visit :=
  wire_transparent Reference.framework Reference.platform Reference.settings Reference.visit
    (by decide) sendable_visit (by decide +kernel)

end Transport
end RemotierSync
