import RemotierSync.Router
import RemotierSync.Provenance

/-!
# Who may act

A token is handed out to whoever proves a key of an account, and in exchange for a token that is
live. So in every run of the router each live token goes back to a key that was proved since the
sessions of its account were ended last, and nobody else changes the store or is shown anything but
what the instance says of itself.
-/

namespace RemotierSync.Router

open Auth SqliteStore

variable (P : Platform) (cfg : Settings)

/-- The key that an endpoint presents opens the account, or there is no such account yet. -/
def Knows (db : SqliteDb) (accountId : String) : Endpoint → Prop
  | .register _ => db.accountById accountId = none
  | .login body => ∃ account, db.accountById accountId = some account ∧
      P.verifyPassword body.authKey account.authHash = true
  | .recover body => ∃ account, db.accountById accountId = some account ∧
      P.verifyPassword body.recoveryAuthKey account.recoveryAuthHash = true
  | _ => False

/-- A request that proves a key of the account, answered with a session. -/
def Proves (accountId : String) (s : AppState) (event : Event) : Prop :=
  ∃ req session, event = .request req ∧ Knows P s.store accountId req.endpoint ∧
    respond P cfg s req = .ok (.session session) ∧ session.accountId = accountId

/-- A logout or a rewrap of the account that succeeds. -/
def EndsSessions (accountId : String) (s : AppState) (event : Event) : Prop :=
  ∃ req, event = .request req ∧ (req.endpoint = .logout ∨ ∃ body, req.endpoint = .rewrap body) ∧
    caller P s.store req = some ⟨accountId⟩ ∧ respond P cfg s req = .ok .empty

/-- A key of the account was proved, and its sessions have not been ended since. -/
def Rooted (accountId : String) (events : List Event) : Prop :=
  History.Since (step P cfg) (.boot .migrated) (Proves P cfg accountId)
    (EndsSessions P cfg accountId) events

/-- The request acts as the account on the strength of a token. -/
def ActsAs (accountId : String) (s : AppState) (req : HttpRequest) : Prop :=
  caller P s.store req = some ⟨accountId⟩ ∨
    ∃ refreshToken session, req.endpoint = .refresh refreshToken ∧
      respond P cfg s req = .ok (.session session) ∧ session.accountId = accountId

variable {P} {cfg} {s : AppState} {req : HttpRequest} {db : SqliteDb} {events : List Event}
  {accountId : String} {a : Arrival}

/-! ## Where a token row comes from -/

theorem account_of_mem_storeToken {tokens : KeyedTable TokenEntry.hash} {added row : TokenEntry}
    (h : row ∈ (Tables.storeToken tokens added).rows) :
    (∃ old ∈ tokens.rows, old.accountId = row.accountId) ∨ row.accountId = added.accountId := by
  rcases KeyedTable.mem_upsert.mp h with ⟨hold, _⟩ | rfl
  · exact Or.inl ⟨row, hold, rfl⟩
  · cases hfind : tokens.find? added.hash with
    | none => exact Or.inr (by rw [KeyedTable.upserted_of_find?_none hfind])
    | some old =>
      rw [KeyedTable.upserted_of_find?_some hfind]
      exact Or.inl ⟨old, (KeyedTable.find?_eq_some.mp hfind).1, rfl⟩

/-- A token of the next state belongs to an account that had one, or to the one whose session is
the answer. -/
theorem account_of_mem_serve {cfg : Config} (hdb : WellFormed db) (howned : Owned db)
    {row : TokenEntry} (h : row ∈ (Server.serve P cfg db a).tokens.rows) :
    ((∃ old ∈ db.tokens.rows, old.accountId = row.accountId) ∧ ¬ Ends P db a row.accountId) ∨
      ∃ session, answer P cfg db a = some session ∧ session.accountId = row.accountId := by
  cases hanswer : answer P cfg db a with
  | some session =>
    have hends : ¬ Ends P db a row.accountId := Provenance.not_ends_of_answer hanswer
    obtain ⟨_, htokens⟩ := tokens_serve_of_answer howned hanswer
    rw [htokens] at h
    rcases account_of_mem_storeToken h with ⟨old, hold, hid⟩ | hid
    · rcases account_of_mem_storeToken hold with ⟨old', hold', hid'⟩ | hid'
      · exact Or.inl ⟨⟨old', mem_of_mem_unspent hold', hid'.trans hid⟩, hends⟩
      · exact Or.inr ⟨session, rfl, hid'.symm.trans hid⟩
    · exact Or.inr ⟨session, rfl, hid.symm⟩
  | none =>
    left
    by_cases hends : ∃ ended, Ends P db a ended
    · obtain ⟨ended, hended⟩ := hends
      rw [tokens_serve_of_ends hended] at h
      obtain ⟨hold, hne⟩ := KeyedTable.mem_delete.mp h
      refine ⟨⟨row, hold, rfl⟩, fun hsame => ?_⟩
      obtain rfl := Provenance.ends_inj hended hsame
      simp at hne
    · rw [tokens_serve_of_neither hdb howned hanswer (not_exists.mp hends)] at h
      exact ⟨⟨row, h, rfl⟩, not_exists.mp hends row.accountId⟩

theorem account_of_refresh {now : ℤ} {minted : Minted} {refreshToken : String} {session : Session}
    {cfg : Config} (howned : Owned db)
    (h : (Program.run (exec P now) (refresh P cfg now minted refreshToken) db).1 = .ok session) :
    ∃ old ∈ db.tokens.rows, old.accountId = session.accountId := by
  obtain ⟨old, hold, _, _, _, hid⟩ :=
    row_of_takeToken ((Provenance.refresh_ok_iff howned).mp ⟨session, h, rfl⟩)
  exact ⟨old, hold, hid⟩

/-! ## What a session proves -/

theorem signsIn_of_session {cfg : Config} {now : ℤ} {admitted : Bool} {minted : Minted}
    {email deviceId deviceName : String} {accepts : Account → Bool} {view : Account → Account}
    {session : Session} (hview : ∀ account, (view account).id = account.id)
    (h : (Program.run (exec P now)
      (signIn P cfg now admitted minted email accepts view deviceId deviceName) db).1 =
        .ok session) :
    ∃ account, db.accountById session.accountId = some account ∧ accepts account = true := by
  by_cases hsigns : ∃ account, SignsIn P admitted email accepts db account
  · obtain ⟨account, hsigns⟩ := hsigns
    obtain ⟨devices, hrun⟩ :=
      run_signIn_of_ok cfg now now minted deviceId deviceName (hview account) hsigns
    rw [hrun] at h
    obtain rfl := Except.ok.inj h
    refine ⟨account, ?_, hsigns.2.2⟩
    rw [show (sessionOf cfg minted (view account)).accountId = account.id from hview account]
    exact hsigns.accountById
  · obtain ⟨e, hrun⟩ :=
      run_signIn_of_error cfg now now minted deviceId deviceName view (not_exists.mp hsigns)
    rw [hrun] at h
    cases h

theorem new_of_session {cfg : Config} {now : ℤ} {admitted : Bool} {newId : String} {salts : Salts}
    {minted : Minted} {body : RegisterRequest} {session : Session}
    (h : (Program.run (exec P now) (register P cfg now admitted newId salts minted body) db).1 =
      .ok session) : db.accountById session.accountId = none := by
  by_cases hfree : ∃ new, registration P cfg admitted salts body = .ok new ∧
      db.toTables.Free P emailEq newId new.email
  · obtain ⟨new, hnew, hfree⟩ := hfree
    obtain ⟨devices, hrun⟩ := run_register_of_ok cfg now now minted hnew hfree
    rw [hrun] at h
    obtain rfl := Except.ok.inj h
    exact KeyedTable.find?_eq_none.mpr (fun account haccount => (hfree account haccount).1)
  · push Not at hfree
    obtain ⟨e, hrun⟩ := run_register_of_error cfg now now minted hfree
    rw [hrun] at h
    cases h

def OpensOrFails (result : Except Error Session × SqliteDb) (db : SqliteDb) : Prop :=
  (∃ session, result.1 = .ok session) ∨ ∃ e, result = (.error e, db)

section OpensOrFails

variable {cfg : Config} {now : ℤ} {admitted : Bool} {minted : Minted}

theorem opensOrFails_register {newId : String} {salts : Salts} (body : RegisterRequest) :
    OpensOrFails
      (Program.run (exec P now) (register P cfg now admitted newId salts minted body) db) db := by
  by_cases hfree : ∃ new, registration P cfg admitted salts body = .ok new ∧
      db.toTables.Free P emailEq newId new.email
  · obtain ⟨new, hnew, hfree⟩ := hfree
    obtain ⟨devices, hrun⟩ := run_register_of_ok cfg now now minted hnew hfree
    exact Or.inl ⟨_, congrArg Prod.fst hrun⟩
  · push Not at hfree
    exact Or.inr (run_register_of_error cfg now now minted hfree)

theorem opensOrFails_signIn {email deviceId deviceName : String} {accepts : Account → Bool}
    {view : Account → Account} (hview : ∀ account, (view account).id = account.id) :
    OpensOrFails
      (Program.run (exec P now)
        (signIn P cfg now admitted minted email accepts view deviceId deviceName) db) db := by
  by_cases hsigns : ∃ account, SignsIn P admitted email accepts db account
  · obtain ⟨account, hsigns⟩ := hsigns
    obtain ⟨devices, hrun⟩ :=
      run_signIn_of_ok cfg now now minted deviceId deviceName (hview account) hsigns
    exact Or.inl ⟨_, congrArg Prod.fst hrun⟩
  · exact Or.inr
      (run_signIn_of_error cfg now now minted deviceId deviceName view (not_exists.mp hsigns))

theorem opensOrFails_refresh (howned : Owned db) (refreshToken : String) :
    OpensOrFails (Program.run (exec P now) (refresh P cfg now minted refreshToken) db) db := by
  cases htake : db.takeToken now (P.hashToken refreshToken) refreshKind with
  | none => exact Or.inr ⟨_, run_refresh_of_no_token cfg now now minted htake⟩
  | some taken =>
    obtain ⟨stored, hstored, _, _, _, hid⟩ := row_of_takeToken htake
    obtain ⟨account, haccount⟩ := Option.ne_none_iff_exists'.mp (howned stored hstored)
    rw [hid] at haccount
    obtain ⟨devices, hrun⟩ := run_refresh_of_ok cfg now now minted htake haccount
    exact Or.inl ⟨_, congrArg Prod.fst hrun⟩

end OpensOrFails

theorem ok_of_toOption {α : Type} {x : Except Error α} {r : α} (h : x.toOption = some r) :
    x = .ok r := by
  cases x with
  | error e => cases h
  | ok r' => rw [Option.some.inj h]

theorem proves_of_session {session : Session} (h : respond P cfg s req = .ok (.session session)) :
    Proves P cfg session.accountId s (.request req) ∨
      ∃ refreshToken, req.endpoint = .refresh refreshToken := by
  have hproves (hknows : Knows P s.store session.accountId req.endpoint) :
      Proves P cfg session.accountId s (.request req) :=
    ⟨req, session, rfl, hknows, h, rfl⟩
  obtain ⟨a, ha, hanswer⟩ := respond_session_iff.mp h
  cases hendpoint : req.endpoint with
  | register body =>
    simp only [arrival, request, hendpoint, Option.map_some, Option.some.injEq] at ha
    subst ha
    rw [hendpoint] at hproves
    exact Or.inl (hproves (new_of_session (ok_of_toOption hanswer)))
  | login body =>
    simp only [arrival, request, hendpoint, Option.map_some, Option.some.injEq] at ha
    subst ha
    have hok := ok_of_toOption hanswer
    rw [login_eq] at hok
    rw [hendpoint] at hproves
    exact Or.inl (hproves (signsIn_of_session (fun _ => rfl) hok))
  | recover body =>
    simp only [arrival, request, hendpoint, Option.map_some, Option.some.injEq] at ha
    subst ha
    have hok := ok_of_toOption hanswer
    rw [recover_eq] at hok
    rw [hendpoint] at hproves
    have hview (account : Account) : (recoveryView account).id = account.id := rfl
    exact Or.inl (hproves (signsIn_of_session hview hok))
  | refresh refreshToken => exact Or.inr ⟨refreshToken, rfl⟩
  | _ =>
    have hopens : req.endpoint.opens = false := by rw [hendpoint]; rfl
    have hno : NoSession (respond P cfg s req) := noSession_respond hopens
    exact absurd h (hno session)

/-! ## The run -/

theorem owned_reached : Owned (reached P cfg events).store := by
  rw [store_reached]
  exact Auth.owned_reached _

theorem ends_of_endsSessions (h : EndsSessions P cfg accountId s (.request req)) :
    ∃ a, arrival P s req = some a ∧ Ends P s.store a accountId := by
  obtain ⟨req, hreq, hendpoint, hcaller, hok⟩ := h
  obtain rfl := Event.request.inj hreq
  rcases hendpoint with hendpoint | ⟨body, hendpoint⟩
  · exact ⟨⟨req.now, .logout ⟨accountId⟩⟩, by simp [arrival, request, hendpoint, hcaller], rfl⟩
  · refine ⟨⟨req.now, .rewrap req.salts ⟨accountId⟩ body⟩,
      by simp [arrival, request, hendpoint, hcaller], rfl, ?_⟩
    have hhandler : handler P cfg (admitted s req) req = withCaller P req (fun caller =>
        rewrap P req.salts caller body >>= fun _ => return .ok .empty) := by
      unfold handler
      rw [hendpoint]
    unfold respond at hok
    rw [outcome_of_caller hhandler hcaller, Program.run_bind_pure] at hok
    dsimp only
    cases hrun : (Program.run (exec P req.now) (rewrap P req.salts ⟨accountId⟩ body) s.store).1 with
    | ok r => rfl
    | error e =>
      rw [hrun] at hok
      simp [Except.map, Error.intoResponse, Response.ok] at hok

theorem token_of_refresh {refreshToken : String} {session : Session} (howned : Owned s.store)
    (hendpoint : req.endpoint = .refresh refreshToken)
    (h : respond P cfg s req = .ok (.session session)) :
    ∃ old ∈ s.store.tokens.rows, old.accountId = session.accountId := by
  obtain ⟨a, ha, hanswer⟩ := respond_session_iff.mp h
  simp only [arrival, request, hendpoint, Option.map_some, Option.some.injEq] at ha
  subst ha
  exact account_of_refresh howned (ok_of_toOption hanswer)

/-- Each stored token goes back to a key of its account. -/
theorem rooted_of_token {row : TokenEntry} (h : row ∈ (reached P cfg events).store.tokens.rows) :
    Rooted P cfg row.accountId events := by
  induction events using List.reverseRecOn generalizing row with
  | nil => simp [reached, AppState.boot, SqliteDb.migrated, Tables.migrated] at h
  | append_singleton events event ih =>
    rw [reached_snoc] at h
    refine History.since_snoc.mpr ?_
    cases event with
    | restart =>
      refine Or.inr ⟨ih h, ?_⟩
      rintro ⟨req, hreq, _⟩
      cases hreq
    | request req =>
      have kept {old : TokenEntry} (hold : old ∈ (reached P cfg events).store.tokens.rows)
          (hid : old.accountId = row.accountId)
          (hends : ∀ a, arrival P (reached P cfg events) req = some a →
            ¬ Ends P (reached P cfg events).store a row.accountId) :
          Rooted P cfg row.accountId events ∧
            ¬ EndsSessions P cfg row.accountId (reached P cfg events) (.request req) := by
        have hrooted := ih hold
        rw [hid] at hrooted
        refine ⟨hrooted, fun hended => ?_⟩
        obtain ⟨a, ha, hended⟩ := ends_of_endsSessions hended
        exact hends a ha hended
      change row ∈ (after P cfg (reached P cfg events) req).store.tokens.rows at h
      rw [store_after] at h
      cases ha : arrival P (reached P cfg events) req with
      | none =>
        rw [ha] at h
        exact Or.inr (kept h rfl (by simp [ha]))
      | some a =>
        rw [ha] at h
        rcases account_of_mem_serve wellFormed_reached owned_reached h with
          ⟨⟨old, hold, hid⟩, hends⟩ | ⟨session, hanswer, hid⟩
        · refine Or.inr (kept hold hid ?_)
          rw [ha]
          rintro a' ⟨⟩
          exact hends
        · have hsession : respond P cfg (reached P cfg events) req = .ok (.session session) :=
            respond_session_iff.mpr ⟨a, ha, hanswer⟩
          rcases proves_of_session hsession with hproves | ⟨refreshToken, hendpoint⟩
          · rw [← hid]
            exact Or.inl hproves
          · obtain ⟨old, hold, hold'⟩ := token_of_refresh owned_reached hendpoint hsession
            refine Or.inr (kept hold (hold'.trans hid) ?_)
            rw [ha]
            rintro a' ⟨⟩
            exact Provenance.not_ends_of_answer hanswer

theorem token_of_caller {c : Caller} (h : caller P db req = some c) :
    ∃ row ∈ db.tokens.rows, row.accountId = c.accountId := by
  unfold caller authenticate at h
  split at h
  · cases h
  · next header _ =>
    rw [Program.run_bind_ok _ ((run_ask _ _ _).trans rfl)] at h
    cases htake : db.takeToken req.now (P.hashToken (trim (String.ofList header))) access with
    | none =>
      rw [htake] at h
      cases h
    | some taken =>
      rw [htake] at h
      obtain ⟨row, hrow, _, _, _, hid⟩ := row_of_takeToken htake
      exact ⟨row, hrow, hid.trans (congrArg Caller.accountId (Option.some.inj h))⟩

theorem rooted_of_actsAs (h : ActsAs P cfg accountId (reached P cfg events) req) :
    Rooted P cfg accountId events := by
  rcases h with hcaller | ⟨refreshToken, session, hendpoint, hsession, rfl⟩
  · obtain ⟨row, hrow, hid⟩ := token_of_caller hcaller
    obtain rfl : row.accountId = accountId := hid
    exact rooted_of_token hrow
  · obtain ⟨old, hold, hid⟩ := token_of_refresh owned_reached hendpoint hsession
    rw [← hid]
    exact rooted_of_token hold

/-! ## What nobody has authority for -/

theorem status_intoResponse_ge (e : Error) : 400 ≤ e.intoResponse.status := by
  cases e <;> simp [Error.intoResponse, Error.parts]

/-- An answer that leaves the store alone and shows nothing. -/
def Refused (P : Platform) (cfg : Settings) (s : AppState) (req : HttpRequest) : Prop :=
  (after P cfg s req).store = s.store ∧ 400 ≤ (respond P cfg s req).status

theorem refused_of_error {e : Error} (h : outcome P cfg s req = (.error e, s.store)) :
    Refused P cfg s req := by
  unfold Refused after respond
  rw [h]
  exact ⟨rfl, status_intoResponse_ge e⟩

theorem session_or_refused (howned : Owned s.store) (h : req.endpoint.opens = true) :
    (∃ session, respond P cfg s req = .ok (.session session)) ∨ Refused P cfg s req := by
  have hopened {p : Handler Session} (hhandler : handler P cfg (admitted s req) req =
        p >>= fun session => return .ok (.session session))
      (hp : OpensOrFails (Program.run (exec P req.now) p s.store) s.store) :
      (∃ session, respond P cfg s req = .ok (.session session)) ∨ Refused P cfg s req := by
    have hout : outcome P cfg s req = _ :=
      (congrArg (fun p => Program.run (exec P req.now) p s.store) hhandler).trans
        (Program.run_bind_pure _ _ _ _)
    rcases hp with ⟨session, hsession⟩ | ⟨e, he⟩
    · left
      refine ⟨session, ?_⟩
      unfold respond
      rw [hout, hsession]
      rfl
    · right
      apply refused_of_error (e := e)
      rw [hout, he]
      rfl
  cases hendpoint : req.endpoint with
  | register body =>
    exact hopened (by unfold handler; rw [hendpoint]) (opensOrFails_register body)
  | login body =>
    refine hopened (by unfold handler; rw [hendpoint]) ?_
    rw [login_eq]
    exact opensOrFails_signIn fun _ => rfl
  | recover body =>
    refine hopened (by unfold handler; rw [hendpoint]) ?_
    rw [recover_eq]
    have hview (account : Account) : (recoveryView account).id = account.id := rfl
    exact opensOrFails_signIn hview
  | refresh refreshToken =>
    exact hopened (by unfold handler; rw [hendpoint]) (opensOrFails_refresh howned refreshToken)
  | _ => simp [hendpoint, Endpoint.opens] at h

theorem caller_or_refused (h : req.endpoint.takesCaller = true) :
    (∃ c, caller P s.store req = some c) ∨ Refused P cfg s req := by
  cases hcaller : caller P s.store req with
  | some c => exact Or.inl ⟨c, rfl⟩
  | none => exact Or.inr (refused_of_error (outcome_of_no_caller h hcaller))

theorem info_or_refused (hopens : req.endpoint.opens = false)
    (hcaller : req.endpoint.takesCaller = false) :
    (req.endpoint = .info ∧ (after P cfg s req).store = s.store) ∨ Refused P cfg s req := by
  have hstore (h : arrival P s req = none) : (after P cfg s req).store = s.store := by
    rw [store_after, h]
    rfl
  cases hendpoint : req.endpoint with
  | info => exact Or.inl ⟨rfl, hstore (by simp [arrival, request, hendpoint])⟩
  | malformed authenticated rejection =>
    cases authenticated with
    | true => simp [hendpoint, Endpoint.takesCaller] at hcaller
    | false =>
      refine Or.inr ⟨hstore (by simp [arrival, request, hendpoint]), ?_⟩
      have hrespond : respond P cfg s req = rejection.intoResponse := by
        unfold respond outcome handler
        rw [hendpoint]
        rfl
      rw [hrespond]
      exact rejection.status_ge
  | _ => simp [hendpoint, Endpoint.takesCaller, Endpoint.opens] at hopens hcaller

/-- Whatever changes the store, or is answered with more than what the instance says of itself,
proves a key or acts for an account whose key was proved since its sessions were ended last. -/
theorem acts_with_authority (P : Platform) (cfg : Settings) (events : List Event)
    (req : HttpRequest)
    (h : (after P cfg (reached P cfg events) req).store ≠ (reached P cfg events).store ∨
      ((respond P cfg (reached P cfg events) req).status = 200 ∧ req.endpoint ≠ .info)) :
    ∃ accountId, Proves P cfg accountId (reached P cfg events) (.request req) ∨
      (ActsAs P cfg accountId (reached P cfg events) req ∧ Rooted P cfg accountId events) := by
  have hnot : ¬ Refused P cfg (reached P cfg events) req := by
    rintro ⟨hstore, hstatus⟩
    rcases h with hchanged | ⟨hok, _⟩
    · exact hchanged hstore
    · omega
  have hacts {accountId : String} (hacts : ActsAs P cfg accountId (reached P cfg events) req) :
      ActsAs P cfg accountId (reached P cfg events) req ∧ Rooted P cfg accountId events :=
    ⟨hacts, rooted_of_actsAs hacts⟩
  cases hopens : req.endpoint.opens with
  | true =>
    obtain ⟨session, hsession⟩ := (session_or_refused owned_reached hopens).resolve_right hnot
    refine ⟨session.accountId, ?_⟩
    rcases proves_of_session hsession with hproves | ⟨refreshToken, hendpoint⟩
    · exact Or.inl hproves
    · exact Or.inr (hacts (Or.inr ⟨refreshToken, session, hendpoint, hsession, rfl⟩))
  | false =>
    cases hcaller : req.endpoint.takesCaller with
    | true =>
      obtain ⟨c, hc⟩ := (caller_or_refused hcaller).resolve_right hnot
      exact ⟨c.accountId, Or.inr (hacts (Or.inl hc))⟩
    | false =>
      obtain ⟨hinfo, hstore⟩ := (info_or_refused hopens hcaller).resolve_right hnot
      rcases h with hchanged | ⟨_, hother⟩
      · exact absurd hstore hchanged
      · exact absurd hinfo hother

/-- Ada registers and pushes a host. -/
theorem push_acts_with_authority : ∃ accountId,
    Proves .reference Reference.settings accountId
        (reached .reference Reference.settings [.request (Reference.signUp "ada")])
        (.request (Reference.http 1 "" (some "Bearer access-ada")
          (.push [Reference.host "h" .personal none 1]))) ∨
      (ActsAs .reference Reference.settings accountId
        (reached .reference Reference.settings [.request (Reference.signUp "ada")])
        (Reference.http 1 "" (some "Bearer access-ada")
          (.push [Reference.host "h" .personal none 1])) ∧
        Rooted .reference Reference.settings accountId [.request (Reference.signUp "ada")]) :=
  acts_with_authority .reference Reference.settings [.request (Reference.signUp "ada")]
    (Reference.http 1 "" (some "Bearer access-ada") (.push [Reference.host "h" .personal none 1]))
    (Or.inr ⟨by decide +kernel, by decide +kernel⟩)

end RemotierSync.Router
