import RemotierSync.Router

/-!
# How often a key can be guessed

A process answers the requests of `/v1/auth` that present a key, or take an address, through the
rate limiter. What the limiter counts are the requests it has let through, whatever became of them,
so that one address has at most ten of them answered in a minute, and a request is turned away
exactly if ten of its own address were answered in the last minute.
-/

namespace RemotierSync.Router

open Auth SqliteStore SlidingWindow

def attempts (reqs : List HttpRequest) : List (Attempt IpAddr) :=
  (reqs.filter (fun req => req.endpoint.guarded)).map attempt

def minute : ℕ := 60 * 1000000000

variable (P : Platform) (cfg : Settings) (store : SqliteDb)

def served (reqs : List HttpRequest) : AppState :=
  History.run (after P cfg) (.boot store) reqs

def exchanges (reqs : List HttpRequest) : List (HttpRequest × Response) :=
  reqs.zip (History.outputs (after P cfg) (respond P cfg) (.boot store) reqs)

/-- A guess that was not turned away. -/
def Guess (p : HttpRequest × Response) : Prop := p.1.endpoint.guarded = true ∧ p.2.status ≠ 429

instance (p : HttpRequest × Response) : Decidable (Guess p) := inferInstanceAs (Decidable (_ ∧ _))

/-- The requests that guess are limited by their address alone. -/
structure Limited (reqs : List HttpRequest) : Prop where
  bounded : ∀ ip start, (exchanges P cfg store reqs).countP (fun p => Guess p ∧ p.1.peer = ip ∧
    start ≤ p.1.instant ∧ p.1.instant < start + minute) ≤ 10
  refused_iff : ∀ before req later, reqs = before ++ req :: later → req.endpoint.guarded = true →
    ((respond P cfg (served P cfg store before) req).status = 429 ↔
      10 ≤ (exchanges P cfg store before).countP (fun p => Guess p ∧ p.1.peer = req.peer ∧
        req.instant - p.1.instant < minute))
  unchanged : ∀ before req later, reqs = before ++ req :: later → req.endpoint.guarded = true →
    (respond P cfg (served P cfg store before) req).status = 429 →
      (after P cfg (served P cfg store before) req).store = (served P cfg store before).store

variable {P} {cfg} {store} {s : AppState} {req : HttpRequest} {reqs : List HttpRequest}
  {db : SqliteDb}

/-! ## What is turned away -/

theorem ne_rateLimited_of_exec {now : ℤ} (c : Call) (db : SqliteDb) (e : Error)
    (hc : OpensSession c) (h : (exec P now c db).1 = .error e) : e ≠ .rateLimited := by
  rintro rfl
  cases c with
  | createAccount id new =>
    by_cases hfree : db.toTables.Free P emailEq id new.email
    · simp [exec, SqliteDb.onTables, Tables.createAccount_of_free hfree] at h
    · simp [exec, SqliteDb.onTables, Tables.createAccount_of_not_free hfree] at h
  | accountByEmail email => cases h
  | accountById id => cases h
  | putToken hash accountId kind expiresAt =>
    simp only [exec, SqliteDb.onTables, Tables.putToken] at h
    split_ifs at h <;> cases h
  | consumeToken hash kind => cases h
  | touchDevice accountId deviceId name =>
    simp only [exec, SqliteDb.onTables, Tables.touchDevice] at h
    split_ifs at h
    cases h
  | _ => exact hc.elim

/-- A program that, but for its calls, is not turned away. -/
abbrev NotLimited {α : Type} (p : Handler α) : Prop := Program.FailsWith (· ≠ .rateLimited) p

theorem notLimited_issueSession {cfg : Config} {now : ℤ} {minted : Minted} {account : Account}
    {deviceId deviceName : String} :
    NotLimited (issueSession P cfg now minted account deviceId deviceName) := by
  refine fun _ _ => ?_
  split_ifs
  · exact fun _ => trivial
  · exact trivial

theorem notLimited_signIn {cfg : Config} {now : ℤ} {minted : Minted}
    {email deviceId deviceName : String} {accepts : Account → Bool} {view : Account → Account} :
    NotLimited (signIn P cfg now true minted email accepts view deviceId deviceName) := by
  intro found
  cases found with
  | none => exact Error.noConfusion
  | some account =>
    change NotLimited (ite _ _ _)
    split_ifs
    · exact Error.noConfusion
    · exact notLimited_issueSession

theorem notLimited_lift {α : Type} {x : Except Error α} (h : x ≠ .error .rateLimited) :
    NotLimited (lift x) := by
  cases x with
  | ok a => exact trivial
  | error e => exact fun he => h (congrArg Except.error he)

theorem validateEmail_ne_rateLimited (email : String) :
    validateEmail email ≠ .error .rateLimited := by
  unfold validateEmail
  dsimp only
  split_ifs <;> simp

theorem hashAuthKey_ne_rateLimited (authKey salt : String) :
    hashAuthKey P authKey salt ≠ .error .rateLimited := by
  unfold hashAuthKey
  cases P.hashPassword authKey salt <;> simp [Except.mapError]

theorem bind_ne_error {α β : Type} {x : Except Error α} {f : α → Except Error β} {e : Error}
    (hx : x ≠ .error e) (hf : ∀ a, f a ≠ .error e) : (x >>= f) ≠ .error e := by
  cases x with
  | ok a => exact hf a
  | error e' => exact fun h => hx (congrArg Except.error (Except.error.inj h))

theorem registration_ne_rateLimited {cfg : Config} {salts : Salts} (body : RegisterRequest) :
    registration P cfg true salts body ≠ .error .rateLimited := by
  unfold registration
  rw [if_neg (by simp)]
  split_ifs
  · simp
  · exact bind_ne_error (validateEmail_ne_rateLimited _) fun _ => by simp
  · refine bind_ne_error (validateEmail_ne_rateLimited _) fun _ => ?_
    refine bind_ne_error (hashAuthKey_ne_rateLimited _ _) fun _ => ?_
    exact bind_ne_error (hashAuthKey_ne_rateLimited _ _) fun _ => by simp [pure, Except.pure]

theorem notLimited_register {cfg : Config} {now : ℤ} {newId : String} {salts : Salts}
    {minted : Minted} (body : RegisterRequest) :
    NotLimited (register P cfg now true newId salts minted body) := by
  rw [register_eq]
  refine Program.failsWith_bind (notLimited_lift (registration_ne_rateLimited body)) fun new => ?_
  exact fun account => notLimited_issueSession

variable (P) (cfg) in
theorem handler_of_guarded (h : req.endpoint.guarded = true) : ∃ p : Bool → Handler Session,
    (∀ admitted, handler P cfg admitted req = p admitted >>= fun session =>
      return .ok (.session session)) ∧
    p false = .fail .rateLimited ∧ NotLimited (p true) ∧ Program.Issues OpensSession (p true) := by
  cases hendpoint : req.endpoint with
  | register body =>
    refine ⟨fun admitted => register P cfg.toConfig req.now admitted req.newId req.salts req.minted
      body, fun admitted => ?_, rfl, notLimited_register body, issues_register _ body⟩
    unfold handler
    rw [hendpoint]
  | login body =>
    refine ⟨fun admitted => login P cfg.toConfig req.now admitted req.minted body,
      fun admitted => ?_, rfl, ?_, issues_login body⟩
    · unfold handler
      rw [hendpoint]
    · dsimp only
      rw [login_eq]
      exact notLimited_signIn
  | recover body =>
    refine ⟨fun admitted => recover P cfg.toConfig req.now admitted req.minted body,
      fun admitted => ?_, rfl, ?_, issues_recover body⟩
    · unfold handler
      rw [hendpoint]
    · dsimp only
      rw [recover_eq]
      exact notLimited_signIn
  | _ => simp [hendpoint, Endpoint.guarded] at h

theorem status_eq_iff (h : req.endpoint.guarded = true) :
    (respond P cfg s req).status = 429 ↔ s.authLimit.answer (attempt req) = false := by
  obtain ⟨p, hhandler, hfalse, hnot, hissues⟩ := handler_of_guarded P cfg h
  have hadmitted : admitted s req = s.authLimit.answer (attempt req) := by simp [admitted, h]
  cases hanswer : s.authLimit.answer (attempt req) with
  | false =>
    refine iff_of_true ?_ rfl
    unfold respond outcome
    rw [hadmitted, hanswer, hhandler, hfalse]
    rfl
  | true =>
    refine iff_of_false ?_ Bool.noConfusion
    unfold respond outcome
    rw [hadmitted, hanswer, hhandler, Program.run_bind_pure]
    cases hrun : (Program.run (exec P req.now) (p true) s.store).1 with
    | ok session => simp [Except.map, Response.ok]
    | error e =>
      have he : e ≠ .rateLimited :=
        Program.error_of_failsWith ne_rateLimited_of_exec hissues hnot hrun
      cases e <;> simp_all [Except.map, Error.intoResponse, Error.parts]

theorem store_of_status (h : req.endpoint.guarded = true)
    (hstatus : (respond P cfg s req).status = 429) : (after P cfg s req).store = s.store := by
  obtain ⟨p, hhandler, hfalse, _⟩ := handler_of_guarded P cfg h
  have hadmitted : admitted s req = false := by
    simp [admitted, h, (status_eq_iff h).mp hstatus]
  unfold after outcome
  rw [hadmitted, hhandler, hfalse]
  rfl

/-! ## What is counted -/

theorem attempts_snoc : attempts (reqs ++ [req]) =
    attempts reqs ++ if req.endpoint.guarded then [attempt req] else [] := by
  rw [attempts, List.filter_append, List.map_append, attempts]
  cases hguarded : req.endpoint.guarded <;> simp [hguarded]

theorem served_snoc : served P cfg store (reqs ++ [req]) =
    after P cfg (served P cfg store reqs) req := by
  rw [served, History.run_snoc, served]

theorem exchanges_snoc : exchanges P cfg store (reqs ++ [req]) =
    exchanges P cfg store reqs ++ [(req, respond P cfg (served P cfg store reqs) req)] := by
  rw [exchanges, History.outputs_snoc, List.zip_append (by simp)]
  rfl

theorem authLimit_served :
    (served P cfg store reqs).authLimit = RateLimit.reached 10 minute (attempts reqs) := by
  induction reqs using List.reverseRecOn with
  | nil => rfl
  | append_singleton reqs req ih =>
    have hstep : (served P cfg store (reqs ++ [req])).authLimit =
        if req.endpoint.guarded then (served P cfg store reqs).authLimit.after (attempt req)
        else (served P cfg store reqs).authLimit := by
      rw [served_snoc]
      rfl
    rw [hstep, ih, attempts_snoc]
    cases req.endpoint.guarded with
    | true =>
      rw [if_pos rfl, if_pos rfl]
      exact (History.run_snoc _ _ _ _).symm
    | false => simp

theorem pairwise_attempts (h : reqs.Pairwise (fun r r' => r.instant ≤ r'.instant)) :
    (attempts reqs).Pairwise (fun a b => a.time ≤ b.time) :=
  List.pairwise_map.mpr (h.filter _)

variable (P) (cfg) (store) in
/-- The limiter answers as the one that keeps every admitted attempt. -/
theorem answer_served (h : (reqs ++ [req]).Pairwise (fun r r' => r.instant ≤ r'.instant)) :
    (served P cfg store reqs).authLimit.answer (attempt req) =
      admits 10 minute (SlidingWindow.admitted 10 minute (attempts reqs)) (attempt req) := by
  obtain ⟨hbefore, _, hlast⟩ := List.pairwise_append.mp h
  have hreached : RateLimit.answers 10 minute (attempts reqs) =
      SlidingWindow.answers 10 minute (attempts reqs) ∧ _ :=
    RateLimit.keeps_reached (pairwise_attempts hbefore)
  obtain ⟨_, last, hle, hkeeps⟩ := hreached
  rw [authLimit_served]
  apply hkeeps.answer_eq
  apply hle
  intro a ha
  obtain ⟨r, hr, rfl⟩ := List.mem_map.mp ha
  exact hlast r (List.mem_of_mem_filter hr) req List.mem_cons_self

/-- What the limiter has admitted are the guesses that were not turned away. -/
theorem admitted_attempts (h : reqs.Pairwise (fun r r' => r.instant ≤ r'.instant)) :
    SlidingWindow.admitted 10 minute (attempts reqs) =
      ((exchanges P cfg store reqs).filter (fun p => Guess p)).map (fun p => attempt p.1) := by
  induction reqs using List.reverseRecOn with
  | nil => rfl
  | append_singleton reqs req ih =>
    have hbefore := (List.pairwise_append.mp h).1
    have hanswer := answer_served P cfg store h
    rw [exchanges_snoc, List.filter_append, List.map_append, ← ih hbefore, attempts_snoc]
    by_cases hguarded : req.endpoint.guarded = true
    · rw [if_pos hguarded, admitted_snoc, SlidingWindow.record, ← hanswer]
      cases hrun : (served P cfg store reqs).authLimit.answer (attempt req) with
      | true =>
        have hguess : Guess (req, respond P cfg (served P cfg store reqs) req) :=
          ⟨hguarded, fun hstatus => by simp [(status_eq_iff hguarded).mp hstatus] at hrun⟩
        simp [hguess]
      | false =>
        have hguess : ¬ Guess (req, respond P cfg (served P cfg store reqs) req) :=
          fun hguess => hguess.2 ((status_eq_iff hguarded).mpr hrun)
        simp [hguess]
    · have hguess : ¬ Guess (req, respond P cfg (served P cfg store reqs) req) :=
        fun hguess => hguarded hguess.1
      simp [hguarded, hguess]

variable (P) (cfg) (store) in
theorem countP_exchanges (h : reqs.Pairwise (fun r r' => r.instant ≤ r'.instant))
    (p : Attempt IpAddr → Prop) [DecidablePred p] :
    (exchanges P cfg store reqs).countP (fun q => Guess q ∧ p (attempt q.1)) =
      (SlidingWindow.admitted 10 minute (attempts reqs)).countP (fun a => p a) := by
  rw [admitted_attempts h, List.countP_map, List.countP_filter]
  apply List.countP_congr
  intro q _
  simp [and_comm]

/-- However many requests come, an address has ten guesses a minute, and nobody else's count. -/
theorem guesses_limited (P : Platform) (cfg : Settings) (store : SqliteDb)
    (reqs : List HttpRequest) (h : reqs.Pairwise (fun r r' => r.instant ≤ r'.instant)) :
    Limited P cfg store reqs where
  bounded ip start := by
    have hcount := countP_exchanges P cfg store h
      (fun a => a.key = ip ∧ start ≤ a.time ∧ a.time < start + minute)
    exact (Nat.le_of_eq hcount).trans (countP_admitted_le _ ip start)
  refused_iff before req later hsplit hguarded := by
    have hbefore : (before ++ [req]).Pairwise (fun r r' => r.instant ≤ r'.instant) := by
      rw [hsplit, List.append_cons] at h
      exact (List.pairwise_append.mp h).1
    have hcount := countP_exchanges P cfg store
      (List.pairwise_append.mp hbefore).1
      (fun a => a.key = req.peer ∧ req.instant - a.time < minute)
    rw [status_eq_iff hguarded, answer_served P cfg store hbefore, ← Bool.not_eq_true, admits_iff,
      not_lt, recent, ← List.countP_eq_length_filter]
    exact (congrArg (10 ≤ ·) hcount.symm).to_iff
  unchanged before req later _ hguarded hstatus := store_of_status hguarded hstatus

def guess (n : ℕ) : HttpRequest := Reference.http n "" none (.login ⟨"a@b", "key", "", ""⟩)

theorem eleven_guesses_limited :
    (exchanges .reference Reference.settings .migrated ((List.range 11).map guess)).map
        (fun p => p.2.status) = List.replicate 10 401 ++ [429] ∧
      Limited .reference Reference.settings .migrated ((List.range 11).map guess) :=
  ⟨by decide +kernel, guesses_limited .reference Reference.settings .migrated
    ((List.range 11).map guess) (by decide +kernel)⟩

end RemotierSync.Router
