import RemotierSync.Router

/-!
# What an outsider learns

An outsider holds no live token and no key that the store accepts, and registration is closed to
him. Whatever he asks, and however often, the answers are those he would have from any other
database: neither whether an address has an account nor anything else can be told from them.
-/

namespace RemotierSync.Router

open Auth SqliteStore

variable (P : Platform) (cfg : Settings)

def NoAccount (db : SqliteDb) (email : String) (accepts : Account → Bool) : Prop :=
  ∀ account, db.accountByEmail P emailEq email = some account → accepts account = false

instance (db : SqliteDb) (email : String) (accepts : Account → Bool) :
    Decidable (NoAccount P db email accepts) :=
  decidable_of_iff
    ((db.accountByEmail P emailEq email).all (fun account => !accepts account) = true)
    (by cases h : db.accountByEmail P emailEq email <;> simp [NoAccount, h])

/-- What the request presents is nothing to the store. -/
def Outside (db : SqliteDb) (req : HttpRequest) : Prop :=
  match req.endpoint with
  | .info => True
  | .register _ => cfg.registrationOpen = false
  | .login body => NoAccount P db body.email
      (fun account => P.verifyPassword body.authKey account.authHash)
  | .refresh refreshToken => db.takeToken req.now (P.hashToken refreshToken) refreshKind = none
  | .recover body => NoAccount P db body.email
      (fun account => P.verifyPassword body.recoveryAuthKey account.recoveryAuthHash)
  | .malformed false _ => True
  | _ => caller P db req = none

def refusal (admitted : Bool) (req : HttpRequest) : Response :=
  match req.endpoint with
  | .info => .ok (info cfg)
  | .register _ => (if admitted then Error.registrationClosed else .rateLimited).intoResponse
  | .login _ => (if admitted then Error.badCredentials else .rateLimited).intoResponse
  | .refresh _ => Error.unauthorised.intoResponse
  | .recover _ => (if admitted then Error.badCredentials else .rateLimited).intoResponse
  | .malformed false rejection => rejection.intoResponse
  | _ => Error.unauthorised.intoResponse

variable {P} {cfg} {s : AppState} {req : HttpRequest} {db : SqliteDb}

theorem run_signIn_of_noAccount {cfg : Config} {now issued : ℤ} {admitted : Bool} {minted : Minted}
    {email deviceId deviceName : String} {accepts : Account → Bool} {view : Account → Account}
    (h : NoAccount P db email accepts) :
    Program.run (exec P now)
        (signIn P cfg issued admitted minted email accepts view deviceId deviceName) db =
      (.error (if admitted then .badCredentials else .rateLimited), db) := by
  cases admitted with
  | false => rfl
  | true =>
    have hask : Program.run (exec P now) (ask (.accountByEmail email)) db =
        (.ok (db.accountByEmail P emailEq email), db) := run_ask _ _ _
    change Program.run (exec P now) (ask (.accountByEmail email) >>= _) db = _
    rw [Program.run_bind_ok _ hask]
    cases hfound : db.accountByEmail P emailEq email with
    | none => rfl
    | some account =>
      dsimp only
      rw [h account hfound]
      rfl

theorem run_register_of_closed {cfg : Config} {now issued : ℤ} {admitted : Bool} {newId : String}
    {salts : Salts} {minted : Minted} {body : RegisterRequest}
    (h : cfg.registrationOpen = false) :
    Program.run (exec P now) (register P cfg issued admitted newId salts minted body) db =
      (.error (if admitted then .registrationClosed else .rateLimited), db) := by
  cases admitted with
  | false => rfl
  | true =>
    rw [register_eq]
    have hclosed : registration P cfg true salts body = .error .registrationClosed := by
      unfold registration
      rw [h]
      rfl
    rw [lift_bind_error hclosed]
    rfl

theorem answer_of_error {e : Error} (h : outcome P cfg s req = (.error e, s.store)) :
    respond P cfg s req = e.intoResponse ∧ (after P cfg s req).store = s.store := by
  unfold respond after
  rw [h]
  exact ⟨rfl, rfl⟩

/-- An outsider is refused, and leaves nothing behind. -/
theorem answer_of_outside (h : Outside P cfg s.store req) :
    respond P cfg s req = refusal cfg (admitted s req) req ∧
      (after P cfg s req).store = s.store := by
  have hfails {p : Handler Session} {e : Error}
      (hhandler : handler P cfg (admitted s req) req =
        p >>= fun session => return .ok (.session session))
      (hp : Program.run (exec P req.now) p s.store = (.error e, s.store)) :
      outcome P cfg s req = (.error e, s.store) := by
    rw [outcome, hhandler, Program.run_bind_error _ hp]
  have hbehind (htakes : req.endpoint.takesCaller = true) (hcaller : caller P s.store req = none)
      (hrefusal : refusal cfg (admitted s req) req = Error.unauthorised.intoResponse) :
      respond P cfg s req = refusal cfg (admitted s req) req ∧
        (after P cfg s req).store = s.store := by
    rw [hrefusal]
    exact answer_of_error (outcome_of_no_caller htakes hcaller)
  unfold Outside at h
  cases hendpoint : req.endpoint with
  | info =>
    unfold respond after outcome handler refusal
    rw [hendpoint]
    exact ⟨rfl, rfl⟩
  | register body =>
    rw [hendpoint] at h
    have hout := hfails (by unfold handler; rw [hendpoint]) (run_register_of_closed h)
    unfold refusal
    rw [hendpoint]
    exact answer_of_error hout
  | login body =>
    rw [hendpoint] at h
    have hrun : Program.run (exec P req.now)
        (login P cfg.toConfig req.now (admitted s req) req.minted body) s.store =
          (.error (if admitted s req then .badCredentials else .rateLimited), s.store) := by
      rw [login_eq]
      exact run_signIn_of_noAccount h
    have hout := hfails (by unfold handler; rw [hendpoint]) hrun
    unfold refusal
    rw [hendpoint]
    exact answer_of_error hout
  | recover body =>
    rw [hendpoint] at h
    have hrun : Program.run (exec P req.now)
        (recover P cfg.toConfig req.now (admitted s req) req.minted body) s.store =
          (.error (if admitted s req then .badCredentials else .rateLimited), s.store) := by
      rw [recover_eq]
      exact run_signIn_of_noAccount h
    have hout := hfails (by unfold handler; rw [hendpoint]) hrun
    unfold refusal
    rw [hendpoint]
    exact answer_of_error hout
  | refresh refreshToken =>
    rw [hendpoint] at h
    have hout := hfails (by unfold handler; rw [hendpoint])
      (run_refresh_of_no_token cfg.toConfig req.now req.now req.minted h)
    unfold refusal
    rw [hendpoint]
    exact answer_of_error hout
  | malformed authenticated rejection =>
    rw [hendpoint] at h
    cases authenticated with
    | false =>
      unfold respond after outcome handler refusal
      rw [hendpoint]
      exact ⟨rfl, rfl⟩
    | true =>
      exact hbehind (by rw [hendpoint]; rfl) h (by unfold refusal; rw [hendpoint])
  | _ =>
    rw [hendpoint] at h
    exact hbehind (by rw [hendpoint]; rfl) h (by unfold refusal; rw [hendpoint])

/-- Two processes with one limiter, on stores to which the requests come from outside. -/
def Alike (db db' : SqliteDb) (s s' : AppState) : Prop :=
  s.store = db ∧ s'.store = db' ∧ s.authLimit = s'.authLimit

theorem alike_after {db' : SqliteDb} {s' : AppState} (h : Outside P cfg db req)
    (h' : Outside P cfg db' req) (halike : Alike db db' s s') :
    respond P cfg s req = respond P cfg s' req ∧
      Alike db db' (after P cfg s req) (after P cfg s' req) := by
  obtain ⟨rfl, rfl, hlimit⟩ := halike
  obtain ⟨hrespond, hstore⟩ := answer_of_outside h
  obtain ⟨hrespond', hstore'⟩ := answer_of_outside h'
  refine ⟨?_, hstore, hstore', ?_⟩
  · rw [hrespond, hrespond', admitted, admitted, hlimit]
  · unfold after
    dsimp only
    rw [hlimit]

/-- To an outsider all databases are alike. -/
theorem outsider_learns_nothing (P : Platform) (cfg : Settings) (db db' : SqliteDb)
    (reqs : List HttpRequest) (h : ∀ req ∈ reqs, Outside P cfg db req)
    (h' : ∀ req ∈ reqs, Outside P cfg db' req) :
    History.outputs (after P cfg) (respond P cfg) (.boot db) reqs =
        History.outputs (after P cfg) (respond P cfg) (.boot db') reqs ∧
      (History.run (after P cfg) (.boot db) reqs).store = db := by
  have hstep (req : HttpRequest) (hreq : req ∈ reqs) (s s' : AppState)
      (halike : Alike db db' s s') :
      respond P cfg s req = respond P cfg s' req ∧
        Alike db db' (after P cfg s req) (after P cfg s' req) :=
    alike_after (h req hreq) (h' req hreq) halike
  have hstart : Alike db db' (.boot db) (.boot db') := ⟨rfl, rfl, rfl⟩
  obtain ⟨houtputs, hstore, _⟩ := History.outputs_simulation hstep hstart
  exact ⟨houtputs, hstore⟩

def probes : List HttpRequest :=
  [Reference.http 1 "" none (.login ⟨"ada@example.com", "guess", "", ""⟩),
    Reference.http 2 "" none (.lookup "ada@example.com")]

/-- With registration closed since Ada has registered, nobody can tell that she has. -/
theorem probes_learn_nothing :
    let closed : Settings := { Reference.settings with registrationOpen := false }
    let db := (reached .reference Reference.settings [.request (Reference.signUp "ada")]).store
    History.outputs (after .reference closed) (respond .reference closed) (.boot db) probes =
        History.outputs (after .reference closed) (respond .reference closed) (.boot .migrated)
          probes ∧
      (History.run (after .reference closed) (.boot db) probes).store = db :=
  outsider_learns_nothing .reference { Reference.settings with registrationOpen := false }
    (reached .reference Reference.settings [.request (Reference.signUp "ada")]).store .migrated
    probes
    (by
      intro req hreq
      rcases List.mem_pair.mp hreq with rfl | rfl
      · exact of_decide_eq_true (p := NoAccount _ _ _ _) (by decide +kernel)
      · rfl)
    (by
      intro req hreq
      rcases List.mem_pair.mp hreq with rfl | rfl
      · exact of_decide_eq_true (p := NoAccount _ _ _ _) (by decide +kernel)
      · rfl)

end RemotierSync.Router
