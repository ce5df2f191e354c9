import RemotierSync.RateLimit
import RemotierSync.TokenRows
import RemotierSync.Reference

/-!
# The routes of the server

A request as it reaches the router: the endpoint its path names, the `Authorization` header, the
address of the peer and what its extractors have read. The state behind the router is the store and
the rate limiter of the process. Every answer is a response, an error turned into its status and its
code. `store_reached` is the step from here to the runs of `Server`: a run of the router leaves the
store as the run of its handlers does in which each caller is the account that the token check has
found.
-/

namespace RemotierSync

structure Settings extends Config where
  instanceName : String

def Settings.fromEnv (env : String → Option String) : Settings where
  toConfig := .fromEnv ((env "REMOTIER_REGISTRATION_OPEN").getD "false" = "true")
  instanceName := (env "REMOTIER_INSTANCE_NAME").getD "Remotier Sync"

def formatVersion : UInt16 := 1

def pkgVersion : String := "0.1.0"

inductive Body where
  | empty
  | instanceInfo (info : InstanceInfo)
  | session (session : Session)
  | keyMaterial (keys : KeyMaterial)
  | userLookup (user : UserLookup)
  | pull (response : PullResponse)
  | push (response : PushResponse)
  | shares (shares : List Share)
  | devices (devices : List Device)
  | error (error : ApiError)
  | text (text : String)
deriving DecidableEq

structure Response where
  status : ℕ
  body : Body
deriving DecidableEq

def Response.ok (body : Body) : Response := ⟨200, body⟩

namespace Error

def parts : Error → ℕ × String
  | .notFound => (404, "not_found")
  | .emailTaken => (409, "email_taken")
  | .badCredentials => (401, "bad_credentials")
  | .unauthorised => (401, "unauthorised")
  | .registrationClosed => (403, "registration_closed")
  | .rateLimited => (429, "rate_limited")
  | .badRequest _ => (400, "bad_request")
  | .db => (500, "internal")
  | .internal _ => (500, "internal")

def toString : Error → String
  | .notFound => "not found"
  | .emailTaken => "that email is already registered"
  | .badCredentials => "wrong email or password"
  | .unauthorised => "sign in first"
  | .registrationClosed => "registration is closed on this instance"
  | .rateLimited => "too many attempts, try again shortly"
  | .badRequest message => message
  | .db => "database error"
  | .internal _ => "internal error"

/-- What is said of an error: nothing of one that is the server's own. -/
def message : Error → String
  | .db => "internal error"
  | .internal _ => "internal error"
  | other => other.toString

def intoResponse (e : Error) : Response := ⟨e.parts.1, .error ⟨e.parts.2, e.message⟩⟩

end Error

/-- The refusal of an extractor, or of the router for a path it does not know. -/
structure Rejection where
  status : ℕ
  text : String
  status_ge : 400 ≤ status
deriving DecidableEq

def Rejection.intoResponse (r : Rejection) : Response := ⟨r.status, .text r.text⟩

/-- What a path and a method name, with what the extractors have read from the request. A request
whose body, query or path they refuse is `malformed`: it is answered with their rejection, behind
the token check where the handler takes a caller. -/
inductive Endpoint where
  | info
  | register (body : RegisterRequest)
  | login (body : LoginRequest)
  | refresh (refreshToken : String)
  | recover (body : RecoverRequest)
  | rewrap (body : RewrapRequest)
  | logout
  | keys
  | lookup (email : String)
  | pull (cursor : ℤ)
  | push (envelopes : List Envelope)
  | mine
  | create (body : ShareRequest)
  | list (groupId : String)
  | remove (groupId userId : String)
  | devices
  | malformed (authenticated : Bool) (rejection : Rejection)
deriving DecidableEq

/-- The endpoints that ask the rate limiter. -/
def Endpoint.guarded : Endpoint → Bool
  | .register _ => true
  | .login _ => true
  | .recover _ => true
  | _ => false

def Endpoint.opens : Endpoint → Bool
  | .register _ => true
  | .login _ => true
  | .refresh _ => true
  | .recover _ => true
  | _ => false

def Endpoint.takesCaller : Endpoint → Bool
  | .info => false
  | .malformed authenticated _ => authenticated
  | endpoint => !endpoint.opens

/-- `now` is the wall clock and `instant` the monotonic one. The id, the salts and the tokens are
what the server draws while it serves the request. -/
structure HttpRequest where
  now : ℤ
  instant : ℕ
  peer : IpAddr
  authorization : Option String
  newId : String
  salts : Auth.Salts
  minted : Auth.Minted
  endpoint : Endpoint
deriving DecidableEq

structure AppState where
  store : SqliteDb
  authLimit : RateLimit

/-- A process that has just started on a store. -/
def AppState.boot (store : SqliteDb) : AppState where
  store := store
  authLimit := .new 10 (60 * 1000000000)

/-- A request, or a new process on the store of the last one. -/
inductive Event where
  | request (req : HttpRequest)
  | restart
deriving DecidableEq

def Arrival.caller (a : Arrival) : Option Caller :=
  match a.request with
  | .rewrap _ caller _ => some caller
  | .logout caller => some caller
  | .push caller _ => some caller
  | .pull caller _ => some caller
  | .createShare caller _ => some caller
  | .removeShare caller _ _ => some caller
  | _ => none

namespace Devices

def device (d : DeviceRow) : Device := ⟨d.deviceId, d.name, d.lastSeen⟩

def list (caller : Caller) : Handler (List Device) := do
  let devices ← ask (.devices caller.accountId)
  return devices.map device

end Devices

namespace Router

open Auth SqliteStore

variable (P : Platform) (cfg : Settings)

def info : Body := .instanceInfo ⟨cfg.instanceName, pkgVersion, [formatVersion],
  cfg.registrationOpen⟩

def withCaller {α : Type} (req : HttpRequest) (handler : Caller → Handler α) : Handler α := do
  let caller ← authenticate P req.authorization
  handler caller

/-- The handler of an endpoint. `admitted` is the answer of the rate limiter. -/
def handler (admitted : Bool) (req : HttpRequest) : Handler Response :=
  match req.endpoint with
  | .info => return .ok (info cfg)
  | .register body => do
    let session ← register P cfg.toConfig req.now admitted req.newId req.salts req.minted body
    return .ok (.session session)
  | .login body => do
    let session ← login P cfg.toConfig req.now admitted req.minted body
    return .ok (.session session)
  | .refresh refreshToken => do
    let session ← refresh P cfg.toConfig req.now req.minted refreshToken
    return .ok (.session session)
  | .recover body => do
    let session ← recover P cfg.toConfig req.now admitted req.minted body
    return .ok (.session session)
  | .rewrap body => withCaller P req fun caller => do
    rewrap P req.salts caller body
    return .ok .empty
  | .logout => withCaller P req fun caller => do
    logout caller
    return .ok .empty
  | .keys => withCaller P req fun caller => do
    let keys ← keys caller
    return .ok (.keyMaterial keys)
  | .lookup email => withCaller P req fun _ => do
    let user ← lookup email
    return .ok (.userLookup user)
  | .pull cursor => withCaller P req fun caller => do
    let response ← Sync.pull cfg.toConfig caller cursor
    return .ok (.pull response)
  | .push envelopes => withCaller P req fun caller => do
    let response ← Sync.push cfg.toConfig caller req.now envelopes
    return .ok (.push response)
  | .mine => withCaller P req fun caller => do
    let shares ← Shares.mine caller
    return .ok (.shares shares)
  | .create body => withCaller P req fun caller => do
    Shares.create caller body
    return .ok .empty
  | .list groupId => withCaller P req fun caller => do
    let shares ← Shares.list caller groupId
    return .ok (.shares shares)
  | .remove groupId userId => withCaller P req fun caller => do
    Shares.remove caller groupId userId
    return .ok .empty
  | .devices => withCaller P req fun caller => do
    let devices ← Devices.list caller
    return .ok (.devices devices)
  | .malformed false rejection => return rejection.intoResponse
  | .malformed true rejection => withCaller P req fun _ => return rejection.intoResponse

def attempt (req : HttpRequest) : SlidingWindow.Attempt IpAddr := ⟨req.peer, req.instant⟩

def admitted (s : AppState) (req : HttpRequest) : Bool :=
  !req.endpoint.guarded || s.authLimit.answer (attempt req)

def outcome (s : AppState) (req : HttpRequest) : Except Error Response × SqliteDb :=
  Program.run (exec P req.now) (handler P cfg (admitted s req) req) s.store

def respond (s : AppState) (req : HttpRequest) : Response :=
  match (outcome P cfg s req).1 with
  | .ok response => response
  | .error e => e.intoResponse

def after (s : AppState) (req : HttpRequest) : AppState where
  store := (outcome P cfg s req).2
  authLimit := if req.endpoint.guarded then s.authLimit.after (attempt req) else s.authLimit

def step (s : AppState) : Event → AppState
  | .request req => after P cfg s req
  | .restart => .boot s.store

def reached (events : List Event) : AppState :=
  History.run (step P cfg) (.boot .migrated) events

def caller (db : SqliteDb) (req : HttpRequest) : Option Caller :=
  (Program.run (exec P req.now) (authenticate P req.authorization) db).1.toOption

/-- The request as the handler sees it that serves it, where the handler may write. -/
def request (admitted : Bool) (caller : Option Caller) (req : HttpRequest) : Option Request :=
  match req.endpoint with
  | .register body => some (.register admitted req.newId req.salts req.minted body)
  | .login body => some (.login admitted req.minted body)
  | .refresh refreshToken => some (.refresh req.minted refreshToken)
  | .recover body => some (.recover admitted req.minted body)
  | .rewrap body => caller.map (fun c => .rewrap req.salts c body)
  | .logout => caller.map .logout
  | .push envelopes => caller.map (fun c => .push c envelopes)
  | .create body => caller.map (fun c => .createShare c body)
  | .remove groupId userId => caller.map (fun c => .removeShare c groupId userId)
  | _ => none

def arrival (s : AppState) (req : HttpRequest) : Option Arrival :=
  (request (admitted s req) (caller P s.store req) req).map (fun request => ⟨req.now, request⟩)

def arrivals : AppState → List Event → List Arrival
  | _, [] => []
  | s, .restart :: events => arrivals (step P cfg s .restart) events
  | s, .request req :: events =>
    (arrival P s req).toList ++ arrivals (step P cfg s (.request req)) events

/-- What a run of the router is to the runs of the handlers: it leaves the same store, each caller
that a handler was given had shown a live token of its account, and the sessions that are answered
are those that the handlers answer with. -/
structure Refines (events : List Event) : Prop where
  store : (reached P cfg events).store =
    Server.reached P cfg.toConfig (arrivals P cfg (.boot .migrated) events)
  callers : ∀ a ∈ arrivals P cfg (.boot .migrated) events, ∀ c, a.caller = some c →
    ∃ before req later, events = before ++ .request req :: later ∧ a.now = req.now ∧
      (Program.run (exec P req.now) (authenticate P req.authorization)
        (reached P cfg before).store).1 = .ok c
  sessions : ∀ before req later, events = before ++ .request req :: later → ∀ session,
    respond P cfg (reached P cfg before) req = .ok (.session session) ↔
      ∃ a, arrivals P cfg (.boot .migrated) (before ++ [.request req]) =
          arrivals P cfg (.boot .migrated) before ++ [a] ∧
        answer P cfg.toConfig (reached P cfg before).store a = some session

variable {P} {cfg} {s : AppState} {req : HttpRequest} {db : SqliteDb} {event : Event}
  {events : List Event}

/-! ## Calls that only read -/

def Reads (c : Call) : Prop := writes c = none

theorem exec_of_reads {now : ℤ} {c : Call} (h : Reads c) : (exec P now c db).2 = db := by
  cases c <;> first | rfl | exact absurd h (by simp [Reads, writes])

theorem run_of_reads {α : Type} {now : ℤ} {p : Handler α} (h : Program.Issues Reads p) :
    (Program.run (exec P now) p db).2 = db :=
  Program.run_invariant_of_issues (K := Reads) (I := fun db' => db' = db)
    (fun _ _ hc hdb => (exec_of_reads hc).trans hdb) h rfl

theorem reads_authenticate (authorization : Option String) :
    Program.Issues Reads (authenticate P authorization) := by
  unfold authenticate
  split
  · exact trivial
  · refine issues_ask_bind.mpr ⟨rfl, fun found => ?_⟩
    cases found <;> exact trivial

theorem reads_withCaller {α : Type} {f : Caller → Handler α}
    (h : ∀ caller, Program.Issues Reads (f caller)) :
    Program.Issues Reads (withCaller P req f) :=
  Program.issues_bind (reads_authenticate _) h

theorem reads_answer {α : Type} {p : Handler α} (h : Program.Issues Reads p)
    (body : α → Response) : Program.Issues Reads (p >>= fun a => return body a) :=
  Program.issues_bind h (fun _ => trivial)

theorem reads_keys (caller : Caller) : Program.Issues Reads (keys caller) := by
  refine issues_ask_bind.mpr ⟨rfl, fun found => ?_⟩
  cases found <;> exact trivial

theorem reads_lookup (email : String) : Program.Issues Reads (lookup email) := by
  refine issues_ask_bind.mpr ⟨rfl, fun found => ?_⟩
  cases found <;> exact trivial

theorem reads_pull (cfg : Config) (caller : Caller) (cursor : ℤ) :
    Program.Issues Reads (Sync.pull cfg caller cursor) :=
  issues_ask_bind.mpr ⟨rfl, fun _ => trivial⟩

theorem reads_mine (caller : Caller) : Program.Issues Reads (Shares.mine caller) :=
  issues_ask_bind.mpr ⟨rfl, fun _ => trivial⟩

theorem reads_list (caller : Caller) (groupId : String) :
    Program.Issues Reads (Shares.list caller groupId) :=
  issues_ask_bind.mpr ⟨rfl, fun _ => trivial⟩

theorem reads_devices (caller : Caller) : Program.Issues Reads (Devices.list caller) :=
  issues_ask_bind.mpr ⟨rfl, fun _ => trivial⟩

/-! ## The token check -/

theorem run_authenticate_snd : (Program.run (exec P req.now)
    (authenticate P req.authorization) db).2 = db :=
  run_of_reads (reads_authenticate _)

theorem run_authenticate (P : Platform) (req : HttpRequest) (db : SqliteDb) :
    Program.run (exec P req.now) (authenticate P req.authorization) db =
      (match caller P db req with
        | some c => .ok c
        | none => .error .unauthorised, db) := by
  refine Prod.ext ?_ run_authenticate_snd
  unfold caller authenticate
  split
  · rfl
  · next header _ =>
    rw [Program.run_bind_ok _ ((run_ask _ _ _).trans rfl)]
    cases db.takeToken req.now (P.hashToken (trim (String.ofList header))) access <;> rfl

theorem run_withCaller {α : Type} {f : Caller → Handler α} :
    Program.run (exec P req.now) (withCaller P req f) db =
      match caller P db req with
      | some c => Program.run (exec P req.now) (f c) db
      | none => (.error .unauthorised, db) := by
  unfold withCaller
  rw [Program.run_bind, run_authenticate]
  cases caller P db req <;> rfl

/-! ## From requests to their handlers -/

theorem run_withCaller_snd {α : Type} {f : Caller → Handler α} (request : Caller → Request)
    (h : ∀ c, (Program.run (exec P req.now) (f c) db).2 =
      Server.serve P cfg.toConfig db ⟨req.now, request c⟩) :
    (Program.run (exec P req.now) (withCaller P req f) db).2 =
      ((((caller P db req).map request).map (fun request => Arrival.mk req.now request)).map
        (Server.serve P cfg.toConfig db)).getD db := by
  rw [run_withCaller]
  cases caller P db req with
  | none => rfl
  | some c => exact h c

/-- A request that no writing handler serves. -/
theorem reads_handler (admitted : Bool) (h : ∀ c, request admitted (some c) req = none) :
    Program.Issues Reads (handler P cfg admitted req) := by
  obtain ⟨now, instant, peer, authorization, newId, salts, minted, endpoint⟩ := req
  cases endpoint with
  | info => exact trivial
  | keys => exact reads_withCaller fun c => reads_answer (reads_keys c) _
  | lookup email => exact reads_withCaller fun _ => reads_answer (reads_lookup email) _
  | pull cursor => exact reads_withCaller fun c => reads_answer (reads_pull _ c cursor) _
  | mine => exact reads_withCaller fun c => reads_answer (reads_mine c) _
  | list groupId => exact reads_withCaller fun c => reads_answer (reads_list c groupId) _
  | devices => exact reads_withCaller fun c => reads_answer (reads_devices c) _
  | malformed authenticated rejection =>
    cases authenticated with
    | false => exact trivial
    | true => exact reads_withCaller fun _ => trivial
  | _ => exact absurd (h ⟨""⟩) (by simp [request])

theorem store_after : (after P cfg s req).store =
    ((arrival P s req).map (Server.serve P cfg.toConfig s.store)).getD s.store := by
  have opened {α : Type} (p : Handler α) (body : α → Response) :
      (Program.run (exec P req.now) (p >>= fun a => return body a) s.store).2 =
        (Program.run (exec P req.now) (Program.discard p) s.store).2 := by
    rw [Program.run_bind_pure, Program.run_discard_snd]
  have wrote {p : Handler Unit} (body : Unit → Response) :
      (Program.run (exec P req.now) (p >>= fun a => return body a) s.store).2 =
        (Program.run (exec P req.now) p s.store).2 := by
    rw [Program.run_bind_pure]
  have reads (h : ∀ c, request (admitted s req) (some c) req = none)
      (hnone : arrival P s req = none) : (after P cfg s req).store =
        ((arrival P s req).map (Server.serve P cfg.toConfig s.store)).getD s.store := by
    rw [hnone]
    exact run_of_reads (reads_handler _ h)
  obtain ⟨now, instant, peer, authorization, newId, salts, minted, endpoint⟩ := req
  cases endpoint with
  | register body => exact opened _ _
  | login body => exact opened _ _
  | refresh refreshToken => exact opened _ _
  | recover body => exact opened _ _
  | rewrap body => exact run_withCaller_snd (fun c => .rewrap salts c body) fun _ => wrote _
  | logout => exact run_withCaller_snd .logout fun _ => wrote _
  | push envelopes =>
    exact run_withCaller_snd (fun c => .push c envelopes) fun _ => opened _ _
  | create body => exact run_withCaller_snd (fun c => .createShare c body) fun _ => wrote _
  | remove groupId userId =>
    exact run_withCaller_snd (fun c => .removeShare c groupId userId) fun _ => wrote _
  | _ => exact reads (fun _ => rfl) rfl

/-- The router refines the runs of its handlers. -/
theorem store_run (s : AppState) (events : List Event) :
    (History.run (step P cfg) s events).store =
      History.run (Server.serve P cfg.toConfig) s.store (arrivals P cfg s events) := by
  induction events generalizing s with
  | nil => rfl
  | cons event events ih =>
    have hcons : History.run (step P cfg) s (event :: events) =
        History.run (step P cfg) (step P cfg s event) events := rfl
    rw [hcons, ih]
    cases event with
    | restart => rfl
    | request req =>
      have hstep : (step P cfg s (.request req)).store = _ := store_after
      rw [hstep, arrivals, History.run_append]
      cases arrival P s req <;> rfl

theorem store_reached : (reached P cfg events).store =
    Server.reached P cfg.toConfig (arrivals P cfg (.boot .migrated) events) :=
  store_run _ _

theorem wellFormed_reached : WellFormed (reached P cfg events).store := by
  rw [store_reached]
  exact Server.wellFormed_reached _

@[simp] theorem reached_snoc :
    reached P cfg (events ++ [event]) = step P cfg (reached P cfg events) event :=
  History.run_snoc _ _ _ _

/-! ## What is answered -/

section Answers

variable {α : Type} {K : Response → Prop}

variable (P) in
def Replies (now : ℤ) (db : SqliteDb) (K : Response → Prop) (p : Handler Response) : Prop :=
  ∀ r, (Program.run (exec P now) p db).1 = .ok r → K r

theorem replies_answer {now : ℤ} {p : Handler α} {body : α → Response} (h : ∀ a, K (body a)) :
    Replies P now db K (p >>= fun a => return body a) := by
  intro r hr
  rw [Program.run_bind_pure] at hr
  cases hp : (Program.run (exec P now) p db).1 with
  | error e =>
    rw [hp] at hr
    cases hr
  | ok a =>
    rw [hp] at hr
    obtain rfl : body a = r := Except.ok.inj hr
    exact h a

theorem replies_withCaller {f : Caller → Handler Response}
    (h : ∀ c, Replies P req.now db K (f c)) :
    Replies P req.now db K (withCaller P req f) := by
  intro r hr
  rw [run_withCaller] at hr
  cases hcaller : caller P db req with
  | none =>
    rw [hcaller] at hr
    cases hr
  | some c =>
    rw [hcaller] at hr
    exact h c r hr

end Answers

def NoSession (r : Response) : Prop := ∀ session, r ≠ .ok (.session session)

theorem noSession_error (e : Error) : NoSession e.intoResponse := by
  intro session h
  simp [Error.intoResponse, Response.ok] at h

theorem noSession_ok {body : Body} (h : ∀ session, body ≠ .session session) :
    NoSession (.ok body) :=
  fun session hs => h session (Response.mk.inj hs).2

theorem noSession_rejection (rejection : Rejection) : NoSession rejection.intoResponse := by
  simp [NoSession, Response.ok, Rejection.intoResponse]

theorem replies_behind {α : Type} {f : Caller → Handler α} (body : α → Body)
    (hbody : ∀ a session, body a ≠ .session session) :
    Replies P req.now db NoSession
      (withCaller P req (fun c => f c >>= fun a => return .ok (body a))) :=
  replies_withCaller fun _ => replies_answer fun a => noSession_ok (hbody a)

theorem replies_handler (admitted : Bool) (h : req.endpoint.opens = false) :
    Replies P req.now db NoSession (handler P cfg admitted req) := by
  obtain ⟨now, instant, peer, authorization, newId, salts, minted, endpoint⟩ := req
  have pure {r : Response} (hr : NoSession r) :
      Replies P now db NoSession (return r) := by
    intro r' h
    obtain rfl : r = r' := Except.ok.inj h
    exact hr
  cases endpoint with
  | info => exact pure (noSession_ok (by simp [info]))
  | rewrap body => exact replies_behind (fun _ => .empty) (by simp)
  | logout => exact replies_behind (fun _ => .empty) (by simp)
  | keys => exact replies_behind .keyMaterial (by simp)
  | lookup email => exact replies_behind .userLookup (by simp)
  | pull cursor => exact replies_behind .pull (by simp)
  | push envelopes => exact replies_behind .push (by simp)
  | mine => exact replies_behind .shares (by simp)
  | create body => exact replies_behind (fun _ => .empty) (by simp)
  | list groupId => exact replies_behind .shares (by simp)
  | remove groupId userId => exact replies_behind (fun _ => .empty) (by simp)
  | devices => exact replies_behind .devices (by simp)
  | malformed authenticated rejection =>
    cases authenticated with
    | false => exact pure (noSession_rejection rejection)
    | true => exact replies_withCaller fun _ => pure (noSession_rejection rejection)
  | _ => cases h

theorem noSession_respond (h : req.endpoint.opens = false) : NoSession (respond P cfg s req) := by
  unfold respond
  cases hout : (outcome P cfg s req).1 with
  | error e => exact noSession_error e
  | ok r => exact replies_handler _ h r hout

theorem response_of_opened {p : Handler Session} {now : ℤ} {session : Session} :
    (match (Program.run (exec P now) (p >>= fun a => return Response.ok (.session a)) db).1 with
      | .ok r => r
      | .error e => e.intoResponse) = Response.ok (.session session) ↔
    (Program.run (exec P now) p db).1.toOption = some session := by
  rw [Program.run_bind_pure]
  cases (Program.run (exec P now) p db).1 with
  | error e => exact iff_of_false (noSession_error e session) (by simp [Except.toOption])
  | ok a => simp [Except.map, Except.toOption, Response.ok]

theorem answer_of_not_opens {a : Arrival} (h : req.endpoint.opens = false)
    (ha : arrival P s req = some a) : answer P cfg.toConfig s.store a = none := by
  obtain ⟨r, hr, rfl⟩ := Option.map_eq_some_iff.mp ha
  unfold request at hr
  cases hendpoint : req.endpoint <;> simp only [hendpoint, Endpoint.opens, reduceCtorEq] at h hr
  all_goals
    obtain ⟨c, _, rfl⟩ := Option.map_eq_some_iff.mp hr
    rfl

theorem respond_session_iff {session : Session} :
    respond P cfg s req = .ok (.session session) ↔
      ∃ a, arrival P s req = some a ∧ answer P cfg.toConfig s.store a = some session := by
  cases hopens : req.endpoint.opens with
  | false =>
    refine iff_of_false (noSession_respond hopens session) ?_
    rintro ⟨a, ha, hanswer⟩
    rw [answer_of_not_opens hopens ha] at hanswer
    cases hanswer
  | true =>
    obtain ⟨now, instant, peer, authorization, newId, salts, minted, endpoint⟩ := req
    cases endpoint with
    | register body => exact response_of_opened.trans (by simp [arrival, request, answer])
    | login body => exact response_of_opened.trans (by simp [arrival, request, answer])
    | refresh refreshToken => exact response_of_opened.trans (by simp [arrival, request, answer])
    | recover body => exact response_of_opened.trans (by simp [arrival, request, answer])
    | _ => cases hopens

/-! ## The refinement -/

theorem arrivals_append (s : AppState) (events more : List Event) :
    arrivals P cfg s (events ++ more) =
      arrivals P cfg s events ++ arrivals P cfg (History.run (step P cfg) s events) more := by
  induction events generalizing s with
  | nil => rfl
  | cons event events ih =>
    cases event with
    | restart => exact ih _
    | request req =>
      rw [List.cons_append, arrivals, ih, arrivals, List.append_assoc]
      rfl

theorem arrivals_snoc : arrivals P cfg (.boot .migrated) (events ++ [.request req]) =
    arrivals P cfg (.boot .migrated) events ++ (arrival P (reached P cfg events) req).toList := by
  rw [arrivals_append, arrivals, arrivals, List.append_nil]
  rfl

theorem authenticate_of_caller {c : Caller} (h : caller P db req = some c) :
    (Program.run (exec P req.now) (authenticate P req.authorization) db).1 = .ok c := by
  rw [run_authenticate, h]

theorem caller_of_arrival {a : Arrival} {c : Caller} (ha : arrival P s req = some a)
    (hc : a.caller = some c) : a.now = req.now ∧ caller P s.store req = some c := by
  obtain ⟨r, hr, rfl⟩ := Option.map_eq_some_iff.mp ha
  refine ⟨rfl, ?_⟩
  unfold request at hr
  cases hendpoint : req.endpoint <;> simp only [hendpoint, reduceCtorEq] at hr
  case register => cases hr; cases hc
  case login => cases hr; cases hc
  case refresh => cases hr; cases hc
  case recover => cases hr; cases hc
  all_goals
    obtain ⟨c', hcaller, rfl⟩ := Option.map_eq_some_iff.mp hr
    rw [hcaller]
    exact hc

theorem router_refines (P : Platform) (cfg : Settings) (events : List Event) :
    Refines P cfg events where
  store := store_reached
  callers a ha c hc := by
    induction events using List.reverseRecOn with
    | nil => simp [arrivals] at ha
    | append_singleton events event ih =>
      have hold (hmem : a ∈ arrivals P cfg (.boot .migrated) events) :
          ∃ before req later, events ++ [event] = before ++ .request req :: later ∧
            a.now = req.now ∧ (Program.run (exec P req.now) (authenticate P req.authorization)
              (reached P cfg before).store).1 = .ok c := by
        obtain ⟨before, req, later, rfl, hfound⟩ := ih hmem
        exact ⟨before, req, later ++ [event], by simp, hfound⟩
      cases event with
      | restart =>
        rw [arrivals_append] at ha
        exact hold (by simpa [arrivals] using ha)
      | request req =>
        rw [arrivals_snoc] at ha
        rcases List.mem_append.mp ha with ha | ha
        · exact hold ha
        · obtain ⟨hnow, hcaller⟩ := caller_of_arrival (Option.mem_toList.mp ha) hc
          exact ⟨events, req, [], rfl, hnow, authenticate_of_caller hcaller⟩
  sessions before req later _ session := by
    rw [respond_session_iff]
    refine exists_congr fun a => and_congr_left fun _ => ?_
    rw [arrivals_snoc, List.append_cancel_left_eq]
    cases arrival P (reached P cfg before) req <;> simp

/-! ## Behind the token check -/

variable (P) (cfg) in
theorem handler_of_takesCaller (admitted : Bool) (h : req.endpoint.takesCaller = true) :
    ∃ f, handler P cfg admitted req = withCaller P req f := by
  unfold handler
  cases hendpoint : req.endpoint with
  | malformed authenticated rejection =>
    cases authenticated with
    | true => exact ⟨_, rfl⟩
    | false => simp [hendpoint, Endpoint.takesCaller] at h
  | _ => first | exact ⟨_, rfl⟩ | simp [hendpoint, Endpoint.takesCaller, Endpoint.opens] at h

theorem outcome_of_caller {f : Caller → Handler Response} {c : Caller}
    (h : handler P cfg (admitted s req) req = withCaller P req f)
    (hcaller : caller P s.store req = some c) :
    outcome P cfg s req = Program.run (exec P req.now) (f c) s.store := by
  rw [outcome, h, run_withCaller, hcaller]

theorem outcome_of_no_caller (h : req.endpoint.takesCaller = true)
    (hcaller : caller P s.store req = none) :
    outcome P cfg s req = (.error .unauthorised, s.store) := by
  obtain ⟨f, hf⟩ := handler_of_takesCaller P cfg (admitted s req) h
  rw [outcome, hf, run_withCaller, hcaller]

end Router

namespace Reference

def settings : Settings := { config with instanceName := "Remotier Sync" }

def newcomer (id : String) : RegisterRequest where
  email := id ++ "@example.com"
  authKey := "key-" ++ id
  keyMaterial := keys
  recoveryMaterial := keys
  recoveryAuthKey := "code-" ++ id
  deviceId := "laptop"
  deviceName := "Laptop"

def http (instant : ℕ) (id : String) (authorization : Option String) (endpoint : Endpoint) :
    HttpRequest where
  now := 0
  instant := instant
  peer := .v4 0
  authorization := authorization
  newId := id
  salts := ⟨"salt", "recovery"⟩
  minted := ⟨"access-" ++ id, "refresh-" ++ id⟩
  endpoint := endpoint

def signUp (id : String) : HttpRequest := http 0 id none (.register (newcomer id))

end Reference
end RemotierSync
