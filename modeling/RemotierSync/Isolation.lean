import RemotierSync.Router
import RemotierSync.Tenants
import RemotierSync.Library.Lockstep

/-!
# Tenants apart

A request names accounts, groups, email addresses, tokens and peers. As long as each request names
either only what is a tenant's or nothing of it, the tenant is answered as by a server of his own:
of everybody else he sees the numbers that their writes take, and nothing more. Nothing here is
checked by the server; it is what follows from the way its queries are written.
-/

namespace RemotierSync

open Auth SqliteStore Program

namespace Tenant

variable (T : Tenant) (P : Platform)

def bearer (authorization : Option String) : Option String :=
  (authorization.bind (fun v => "Bearer ".toList.isPrefixOf? v.toList)).map
    (fun header => trim (String.ofList header))

def holds (minted : Minted) : Bool :=
  T.token (P.hashToken minted.accessToken) && T.token (P.hashToken minted.refreshToken)

def namesGroups (e : Envelope) : Bool :=
  e.groupId.all T.group &&
    match e.keyRef with
    | .personal => true
    | .group groupId => T.group groupId

def namesEndpoint (req : HttpRequest) : Bool :=
  match req.endpoint with
  | .register body =>
    T.account req.newId && T.address (stored P body.email) && T.holds P req.minted
  | .login body => T.address (stored P body.email) && T.holds P req.minted
  | .refresh refreshToken => T.token (P.hashToken refreshToken) && T.holds P req.minted
  | .recover body => T.address (stored P body.email) && T.holds P req.minted
  | .lookup email => T.address (stored P email)
  | .push envelopes => envelopes.all T.namesGroups
  | .create body => T.group body.groupId && T.account body.userId
  | .list groupId => T.group groupId
  | .remove groupId _ => T.group groupId
  | _ => true

/-- Everything that the request names is the tenant's. -/
def names (req : HttpRequest) : Bool :=
  (!req.endpoint.guarded || T.peer req.peer) &&
    (!req.endpoint.takesCaller ||
      (bearer req.authorization).all (fun token => T.token (P.hashToken token))) &&
    T.namesEndpoint P req

def Returns : (c : Call) → c.Ret → Prop
  | .createAccount .., account => T.account account.id = true
  | .accountByEmail _, found => ∀ account, found = some account → T.account account.id = true
  | .accountById _, found => ∀ account, found = some account → T.account account.id = true
  | .takeToken .., found => ∀ row, found = some row → T.account row.accountId = true
  | .consumeToken .., found => ∀ row, found = some row → T.account row.accountId = true
  | .shareOwner _, found => ∀ owner, found = some owner → T.account owner = true
  | _, _ => True

variable {T} {P} {t : Tables} {db : SqliteDb} {now : ℤ} {req : HttpRequest}

/-! ## Programs of the tenant -/

theorem account_of_takeToken (h : T.Separated t) {hash kind : String}
    (hhash : T.token hash = true) {row : TokenRow} (hrow : t.takeToken now hash kind = some row) :
    T.account row.accountId = true := by
  obtain ⟨entry, hfound, rfl⟩ := Option.map_eq_some_iff.mp hrow
  exact account_of_hash h hhash entry (List.mem_of_find?_eq_some hfound)
    (Tables.isLive_iff.mp (List.find?_some hfound)).1

theorem returns_exec (h : T.Separated db.toTables) {c : Call} (hc : T.Within P c) {r : c.Ret}
    (hr : (exec P now c db).1 = .ok r) : T.Returns c r := by
  cases c with
  | createAccount id new =>
    by_cases hfree : db.toTables.Free P emailEq id new.email
    · simp only [exec, SqliteDb.onTables, Tables.createAccount_of_free hfree] at hr
      obtain rfl := Except.ok.inj hr
      exact hc.1
    · simp only [exec, SqliteDb.onTables, Tables.createAccount_of_not_free hfree] at hr
      cases hr
  | accountByEmail email =>
    intro account hfound
    obtain rfl : db.accountByEmail P emailEq email = r := Except.ok.inj hr
    have hmem := List.mem_of_find?_eq_some hfound
    have hmatch : emailEq account.email (P.toLowercase (trim email)) = true :=
      List.find?_some (p := fun a : Account => emailEq a.email (P.toLowercase (trim email))) hfound
    rw [← h.accounts account hmem, T.address_congr hmatch]
    exact hc
  | accountById id =>
    intro account hfound
    obtain rfl : db.accountById id = r := Except.ok.inj hr
    rw [show account.id = id from KeyedTable.find?_key_eq hfound]
    exact hc
  | takeToken hash kind =>
    intro row hrow
    obtain rfl : db.takeToken now hash kind = r := Except.ok.inj hr
    exact account_of_takeToken h hc hrow
  | consumeToken hash kind =>
    intro row hrow
    obtain rfl : db.takeToken now hash kind = r := Except.ok.inj hr
    exact account_of_takeToken h hc hrow
  | shareOwner groupId =>
    intro owner howner
    obtain rfl : db.shareOwner P groupId = r := Except.ok.inj hr
    obtain ⟨s, hs, hgroup, rfl⟩ := Tables.shareOwner_eq_some howner
    rw [(h.shares s hs).1, hgroup]
    exact hc
  | _ => trivial

variable (T) (P) in
/-- The program names only what is the tenant's, as long as the answers do, and what it returns
satisfies `Q`. -/
abbrev Stays {α : Type} (Q : α → Prop) (p : Handler α) : Prop :=
  Ensures (T.Within P) T.Returns Q p

section Stays

variable {α : Type} {Q : α → Prop} {cfg : Config} {minted : Minted}

theorem stays_issueSession {account : Account} (hholds : T.holds P minted = true)
    (haccount : T.account account.id = true) (deviceId deviceName : String) :
    T.Stays P (fun _ => True) (issueSession P cfg now minted account deviceId deviceName) := by
  obtain ⟨haccess, hrefresh⟩ := Bool.and_eq_true_iff.mp hholds
  refine ⟨⟨haccess, haccount⟩, fun _ _ => ⟨⟨hrefresh, haccount⟩, fun _ _ => ?_⟩⟩
  split_ifs
  · exact ⟨haccount, fun _ _ => trivial⟩
  · trivial

theorem stays_register {admitted : Bool} {newId : String} {salts : Salts} {body : RegisterRequest}
    (hid : T.account newId = true) (hemail : T.address (stored P body.email) = true)
    (hholds : T.holds P minted = true) :
    T.Stays P (fun _ => True) (register P cfg now admitted newId salts minted body) := by
  unfold register
  apply ensures_guard_bind
  by_cases hopen : (!cfg.registrationOpen) = true
  · rw [if_pos hopen]
    trivial
  rw [if_neg hopen]
  apply ensures_lift_bind
  intro _
  by_cases hrecovery : body.recoveryMaterial.wrappedPersonalKey.ciphertext = ""
  · rw [if_pos hrecovery]
    trivial
  rw [if_neg hrecovery]
  apply ensures_lift_bind
  intro _
  apply ensures_lift_bind
  intro _
  exact ⟨⟨hid, hemail⟩, fun account haccount => stays_issueSession hholds haccount _ _⟩

theorem stays_signIn {admitted : Bool} {email deviceId deviceName : String}
    {accepts : Account → Bool} {seen : Account → Account} (hseen : ∀ a, (seen a).id = a.id)
    (hemail : T.address (stored P email) = true) (hholds : T.holds P minted = true) :
    T.Stays P (fun _ => True)
      (signIn P cfg now admitted minted email accepts seen deviceId deviceName) := by
  apply ensures_guard_bind
  refine ⟨hemail, fun found hfound => ?_⟩
  cases found with
  | none => trivial
  | some account =>
    change T.Stays P _ (ite _ _ _)
    split_ifs
    · trivial
    · exact stays_issueSession hholds (by rw [hseen]; exact hfound account rfl) _ _

theorem stays_refresh {refreshToken : String} (htoken : T.token (P.hashToken refreshToken) = true)
    (hholds : T.holds P minted = true) :
    T.Stays P (fun _ => True) (refresh P cfg now minted refreshToken) := by
  refine ⟨htoken, fun row hrow => ?_⟩
  cases row with
  | none => trivial
  | some row =>
    refine ⟨hrow row rfl, fun found hfound => ?_⟩
    cases found with
    | none => trivial
    | some account => exact stays_issueSession hholds (hfound account rfl) _ _

theorem stays_rewrap {salts : Salts} {caller : Caller} {body : RewrapRequest}
    (hcaller : T.account caller.accountId = true) :
    T.Stays P (fun _ => True) (rewrap P salts caller body) := by
  refine ⟨hcaller, fun found hfound => ?_⟩
  cases found with
  | none => trivial
  | some account =>
    have hid := hfound account rfl
    apply ensures_lift_bind
    intro _
    apply ensures_lift_bind
    intro _
    exact ⟨hid, fun _ _ => ⟨hid, fun _ _ => trivial⟩⟩

end Stays

/-! ## A batch of the tenant -/

def KnowsOwners (T : Tenant) (st : Sync.PushState) : Prop :=
  ∀ groupId owner, st.owners.lookup groupId = some (some owner) → T.account owner = true

section Push

variable {cfg : Config} {caller : Caller} {e : Envelope} {st : Sync.PushState}

theorem stays_askOnce {β : Type} {Q : β → Prop} {known : List (String × β)} {groupId : String}
    {question : Handler β} (hquestion : T.Stays P Q question)
    (hknown : ∀ answer, known.lookup groupId = some answer → Q answer) :
    T.Stays P (fun p => Q p.1 ∧ (p.2 = known ∨ p.2 = (groupId, p.1) :: known))
      (Sync.askOnce known groupId question) := by
  unfold Sync.askOnce
  split
  · next answer hanswer => exact ⟨hknown answer hanswer, Or.inl rfl⟩
  · exact ensures_bind hquestion fun answer hanswer => ⟨hanswer, Or.inr rfl⟩

theorem stays_store {storageAccount : String} (haccount : T.account storageAccount = true)
    (hgroups : T.namesGroups e = true) (hst : T.KnowsOwners st) :
    T.Stays P T.KnowsOwners (Sync.store storageAccount e st) := by
  have hhint : ∀ g, e.groupId = some g → T.group g = true := by
    intro g hg
    have hall := (Bool.and_eq_true_iff.mp hgroups).1
    rwa [hg, Option.all_some] at hall
  refine ⟨⟨haccount, hhint⟩, fun answer _ => ?_⟩
  cases answer with
  | none => exact hst
  | some seq => exact hst

theorem stays_pushOne (hcaller : T.account caller.accountId = true)
    (hgroups : T.namesGroups e = true) (hst : T.KnowsOwners st) :
    T.Stays P T.KnowsOwners (Sync.pushOne cfg caller now e st) := by
  unfold Sync.pushOne
  split
  · exact hst
  split
  · exact stays_store hcaller hgroups hst
  next groupId hkey =>
  have hgroup : T.group groupId = true := by
    have hkeyed := (Bool.and_eq_true_iff.mp hgroups).2
    rwa [hkey] at hkeyed
  have hwritable : T.Stays P (fun _ => True) (ask (.canWriteGroup caller.accountId groupId)) :=
    ⟨hgroup, fun _ _ => trivial⟩
  refine ensures_bind (stays_askOnce hwritable fun _ _ => trivial) ?_
  rintro ⟨allowed, writable⟩ -
  dsimp only
  split_ifs
  · have howner : T.Stays P (fun found => ∀ owner, found = some owner → T.account owner = true)
        (ask (.shareOwner groupId)) := ⟨hgroup, fun _ hfound => hfound⟩
    refine ensures_bind (stays_askOnce howner
      fun answer hanswer owner hfound => hst groupId owner (hfound ▸ hanswer)) ?_
    rintro ⟨found, owners⟩ ⟨hfound, howners⟩
    dsimp only at hfound howners
    have haccount : T.account (found.getD caller.accountId) = true := by
      cases found with
      | none => exact hcaller
      | some owner => exact hfound owner rfl
    refine stays_store haccount hgroups fun g owner hlookup => ?_
    rcases howners with rfl | rfl
    · exact hst g owner hlookup
    · by_cases hg : g = groupId
      · subst hg
        rw [List.lookup_cons_self] at hlookup
        exact hfound owner (Option.some.inj hlookup)
      · rw [List.lookup_cons, beq_false_of_ne hg] at hlookup
        exact hst g owner hlookup
  · exact hst

theorem stays_pushAll (hcaller : T.account caller.accountId = true) {body : List Envelope}
    (hgroups : ∀ e ∈ body, T.namesGroups e = true) (hst : T.KnowsOwners st) :
    T.Stays P T.KnowsOwners (Sync.pushAll cfg caller now body st) := by
  induction body generalizing st with
  | nil => exact hst
  | cons e rest ih =>
    refine ensures_bind (stays_pushOne hcaller (hgroups e List.mem_cons_self) hst) ?_
    intro st hst
    exact ih (fun e he => hgroups e (List.mem_cons_of_mem _ he)) hst

theorem stays_push (hcaller : T.account caller.accountId = true) {body : List Envelope}
    (hgroups : ∀ e ∈ body, T.namesGroups e = true) :
    T.Stays P (fun _ => True) (Sync.push cfg caller now body) := by
  have hinitial : T.KnowsOwners .initial := fun _ _ h => by cases h
  exact ensures_bind (stays_pushAll hcaller hgroups hinitial)
    fun _ _ => ⟨trivial, fun _ _ => trivial⟩

end Push

/-! ## A request of the tenant -/

theorem stays_withCaller {f : Caller → Handler Response}
    (hbearer : (bearer req.authorization).all (fun token => T.token (P.hashToken token)) = true)
    (hf : ∀ caller : Caller, T.account caller.accountId = true →
      T.Stays P (fun _ => True) (f caller)) :
    T.Stays P (fun _ => True) (Router.withCaller P req f) := by
  unfold Router.withCaller authenticate
  unfold bearer at hbearer
  split
  · trivial
  · next header hheader =>
    rw [hheader] at hbearer
    refine ⟨hbearer, fun row hrow => ?_⟩
    cases row with
    | none => trivial
    | some row => exact hf ⟨row.accountId⟩ (hrow row rfl)

/-- The handler of a request that names only what is the tenant's stays with the tenant. -/
theorem stays_handler (cfg : Settings) (admitted : Bool) (h : T.names P req = true) :
    T.Stays P (fun _ => True) (Router.handler P cfg admitted req) := by
  obtain ⟨hbefore, hendpoint⟩ := Bool.and_eq_true_iff.mp h
  have hbearer (htakes : req.endpoint.takesCaller = true) :
      (bearer req.authorization).all (fun token => T.token (P.hashToken token)) = true := by
    have htoken := (Bool.and_eq_true_iff.mp hbefore).2
    rwa [htakes, Bool.not_true, Bool.false_or] at htoken
  have hbehind {f : Caller → Handler Response} (htakes : req.endpoint.takesCaller = true)
      (hf : ∀ caller : Caller, T.account caller.accountId = true →
        T.Stays P (fun _ => True) (f caller)) :
      T.Stays P (fun _ => True) (Router.withCaller P req f) :=
    stays_withCaller (hbearer htakes) hf
  unfold namesEndpoint at hendpoint
  unfold Router.handler
  cases hreq : req.endpoint with
  | info => trivial
  | register body =>
    simp only [hreq, Bool.and_eq_true] at hendpoint
    exact ensures_map _ (stays_register hendpoint.1.1 hendpoint.1.2 hendpoint.2)
  | login body =>
    simp only [hreq, Bool.and_eq_true] at hendpoint
    have hsignIn : T.Stays P (fun _ => True)
        (login P cfg.toConfig req.now admitted req.minted body) := by
      rw [login_eq]
      exact stays_signIn (fun _ => rfl) hendpoint.1 hendpoint.2
    exact ensures_map _ hsignIn
  | refresh refreshToken =>
    simp only [hreq, Bool.and_eq_true] at hendpoint
    exact ensures_map _ (stays_refresh hendpoint.1 hendpoint.2)
  | recover body =>
    simp only [hreq, Bool.and_eq_true] at hendpoint
    have hsignIn : T.Stays P (fun _ => True)
        (recover P cfg.toConfig req.now admitted req.minted body) := by
      rw [recover_eq]
      exact stays_signIn (fun _ => rfl) hendpoint.1 hendpoint.2
    exact ensures_map _ hsignIn
  | rewrap body =>
    exact hbehind (by rw [hreq]; rfl) fun caller hcaller => ensures_map _ (stays_rewrap hcaller)
  | logout =>
    exact hbehind (by rw [hreq]; rfl) fun caller hcaller => ⟨hcaller, fun _ _ => trivial⟩
  | keys =>
    refine hbehind (by rw [hreq]; rfl) fun caller hcaller => ⟨hcaller, fun found _ => ?_⟩
    cases found <;> trivial
  | lookup email =>
    rw [hreq] at hendpoint
    refine hbehind (by rw [hreq]; rfl) fun caller hcaller => ⟨hendpoint, fun found _ => ?_⟩
    cases found <;> trivial
  | pull cursor =>
    exact hbehind (by rw [hreq]; rfl) fun caller hcaller => ⟨hcaller, fun _ _ => trivial⟩
  | push envelopes =>
    simp only [hreq, List.all_eq_true] at hendpoint
    exact hbehind (by rw [hreq]; rfl) fun caller hcaller =>
      ensures_map _ (stays_push hcaller hendpoint)
  | mine => exact hbehind (by rw [hreq]; rfl) fun caller hcaller => ⟨hcaller, fun _ _ => trivial⟩
  | create body =>
    simp only [hreq, Bool.and_eq_true] at hendpoint
    refine hbehind (by rw [hreq]; rfl) fun caller hcaller => ensures_bind (Q := fun _ => True) ?_
      fun _ _ => trivial
    unfold Shares.create
    split_ifs
    · trivial
    · refine ⟨hendpoint.2, fun found _ => ?_⟩
      cases found with
      | none => trivial
      | some user => exact ⟨⟨hcaller, hendpoint.1, hendpoint.2⟩, fun _ _ => trivial⟩
  | list groupId =>
    rw [hreq] at hendpoint
    exact hbehind (by rw [hreq]; rfl) fun caller _ => ⟨hendpoint, fun _ _ => trivial⟩
  | remove groupId userId =>
    rw [hreq] at hendpoint
    exact hbehind (by rw [hreq]; rfl) fun caller _ => ⟨hendpoint, fun _ _ => trivial⟩
  | devices =>
    exact hbehind (by rw [hreq]; rfl) fun caller hcaller => ⟨hcaller, fun _ _ => trivial⟩
  | malformed authenticated rejection =>
    cases authenticated with
    | false => trivial
    | true => exact hbehind (by rw [hreq]; rfl) fun _ _ => trivial

/-! ## The tenant's limiter -/

/-- Of the tenant's peers the limiters hold the same attempts that any later sweep leaves. -/
structure AlikeLimits (T : Tenant) (last : ℕ) (limit limit' : RateLimit) : Prop where
  window_eq : limit.window = limit'.window
  max_eq : limit.max = limit'.max
  times_eq : ∀ ip, T.peer ip = true → ∀ now, last ≤ now →
    (limit.timesOf ip).filter (fun t => durationSince now t < limit.window) =
      (limit'.timesOf ip).filter (fun t => durationSince now t < limit.window)

section Limits

variable {last : ℕ} {limit limit' : RateLimit} {a : SlidingWindow.Attempt IpAddr}

theorem filter_filter_recent {times : List ℕ} {window before now : ℕ} (h : before ≤ now) :
    (times.filter (fun t => durationSince before t < window)).filter
        (fun t => durationSince now t < window) =
      times.filter (fun t => durationSince now t < window) := by
  rw [List.filter_filter]
  apply List.filter_congr
  intro t _
  rw [← Bool.decide_and]
  apply decide_eq_decide.mpr
  unfold durationSince
  omega

theorem AlikeLimits.answer_eq (h : T.AlikeLimits last limit limit') (hpeer : T.peer a.key = true)
    (hclock : last ≤ a.time) : limit.answer a = limit'.answer a := by
  rw [Bool.eq_iff_iff, RateLimit.answer_iff, RateLimit.answer_iff, h.times_eq a.key hpeer a.time
    hclock, h.max_eq, h.window_eq]

theorem AlikeLimits.after (h : T.AlikeLimits last limit limit') (hpeer : T.peer a.key = true)
    (hclock : last ≤ a.time) : T.AlikeLimits a.time (limit.after a) (limit'.after a) where
  window_eq := by rw [RateLimit.window_after, RateLimit.window_after, h.window_eq]
  max_eq := by rw [RateLimit.max_after, RateLimit.max_after, h.max_eq]
  times_eq ip hip now hnow := by
    rw [RateLimit.timesOf_after, RateLimit.timesOf_after, h.answer_eq hpeer hclock,
      h.times_eq ip hip a.time hclock, h.window_eq]

theorem AlikeLimits.after_other (h : T.AlikeLimits last limit limit')
    (hpeer : T.peer a.key = false) (hclock : last ≤ a.time) :
    T.AlikeLimits a.time (limit.after a) limit' where
  window_eq := RateLimit.window_after.trans h.window_eq
  max_eq := RateLimit.max_after.trans h.max_eq
  times_eq ip hip now hnow := by
    have hne : ip ≠ a.key := by
      rintro rfl
      rw [hip] at hpeer
      cases hpeer
    rw [RateLimit.timesOf_after, if_neg (fun h => hne h.1), List.append_nil,
      RateLimit.window_after, filter_filter_recent hnow]
    exact h.times_eq ip hip now (hclock.trans hnow)

theorem AlikeLimits.mono (h : T.AlikeLimits last limit limit') {later : ℕ} (hle : last ≤ later) :
    T.AlikeLimits later limit limit' where
  window_eq := h.window_eq
  max_eq := h.max_eq
  times_eq ip hip now hnow := h.times_eq ip hip now (hle.trans hnow)

end Limits

end Tenant

namespace Router

variable (P : Platform) (cfg : Settings) (T : Tenant)

/-- What reaches a server of the tenant's own: his requests, and the numbers others take. -/
inductive Sight where
  | own (req : HttpRequest)
  | taken (n : ℕ)
deriving DecidableEq

namespace Sight

def step (s : AppState) : Sight → AppState
  | .own req => after P cfg s req
  | .taken n => { s with store := { s.store with next := s.store.next + n } }

def answer (s : AppState) : Sight → Option Response
  | .own req => some (respond P cfg s req)
  | .taken _ => none

end Sight

def answerTo (s : AppState) (req : HttpRequest) : Option Response :=
  if T.names P req then some (respond P cfg s req) else none

/-- What is left of a request if only the tenant is served. -/
def sight (s : AppState) (req : HttpRequest) : Sight :=
  if T.names P req then .own req
  else .taken ((after P cfg s req).store.next - s.store.next).toNat

def sights : AppState → List HttpRequest → List Sight
  | _, [] => []
  | s, req :: reqs => sight P cfg T s req :: sights (after P cfg s req) reqs

/-- The second server holds what the first holds of the tenant. -/
structure Seen (last : ℕ) (s s' : AppState) : Prop where
  separated : T.Separated s.store.toTables
  store : s'.store = T.viewDb s.store
  limits : T.AlikeLimits last s.authLimit s'.authLimit

variable {P} {cfg} {T} {s s' : AppState} {req : HttpRequest} {last : ℕ}

theorem next_after : s.store.next ≤ (after P cfg s req).store.next := (grows_run _).1

variable (P) (cfg) in
theorem seen_after (h : Seen T last s s') (hreq : T.names P req = true)
    (hclock : last ≤ req.instant) : respond P cfg s req = respond P cfg s' req ∧
      Seen T req.instant (after P cfg s req) (after P cfg s' req) := by
  have hpeer (hguarded : req.endpoint.guarded = true) : T.peer req.peer = true := by
    have hfirst := (Bool.and_eq_true_iff.mp (Bool.and_eq_true_iff.mp hreq).1).1
    rwa [hguarded, Bool.not_true, Bool.false_or] at hfirst
  have hadmitted : admitted s req = admitted s' req := by
    unfold admitted
    cases hguarded : req.endpoint.guarded with
    | false => rfl
    | true => rw [h.limits.answer_eq (a := attempt req) (hpeer hguarded) hclock]
  have hexec (c : Call) (db db' : SqliteDb) (hc : T.Within P c)
      (hdb : T.Separated db.toTables ∧ db' = T.viewDb db) :
      (exec P req.now c db).1 = (exec P req.now c db').1 ∧
        (T.Separated (exec P req.now c db).2.toTables ∧
          (exec P req.now c db').2 = T.viewDb (exec P req.now c db).2) ∧
        ∀ r, (exec P req.now c db).1 = .ok r → T.Returns c r := by
    obtain ⟨hseparated, rfl⟩ := hdb
    rw [Tenant.exec_view P req.now hseparated hc]
    exact ⟨rfl, ⟨Tenant.separated_exec P req.now hseparated hc, rfl⟩,
      fun r hr => Tenant.returns_exec hseparated hc hr⟩
  obtain ⟨hanswer, hseparated, hstore⟩ := run_lockstep hexec
    (Tenant.stays_handler cfg (admitted s req) hreq) ⟨h.separated, h.store⟩
  have houtcome : (outcome P cfg s req).1 = (outcome P cfg s' req).1 := by
    rw [outcome, outcome, ← hadmitted]
    exact hanswer
  refine ⟨by rw [respond, respond, houtcome], hseparated, ?_, ?_⟩
  · unfold after outcome
    rw [← hadmitted]
    exact hstore
  · unfold after
    dsimp only
    split_ifs with hguarded
    · exact h.limits.after (a := attempt req) (hpeer hguarded) hclock
    · exact h.limits.mono hclock

theorem seen_after_other (h : Seen T last s s') (hreq : T.compl.names P req = true)
    (hclock : last ≤ req.instant) : Seen T req.instant (after P cfg s req)
      (Sight.step P cfg s' (.taken ((after P cfg s req).store.next - s.store.next).toNat)) := by
  have hexec (c : Call) (db : SqliteDb) (hc : T.compl.Within P c)
      (hdb : T.Separated db.toTables ∧ T.view db.toTables = T.view s.store.toTables) :
      (T.Separated (exec P req.now c db).2.toTables ∧
        T.view (exec P req.now c db).2.toTables = T.view s.store.toTables) ∧
        ∀ r, (exec P req.now c db).1 = .ok r → T.compl.Returns c r := by
    obtain ⟨hseparated, hview⟩ := hdb
    have hcompl := Tenant.separated_compl.mpr hseparated
    refine ⟨⟨?_, (Tenant.view_exec_of_compl P req.now hseparated hc).trans hview⟩,
      fun r hr => Tenant.returns_exec hcompl hc hr⟩
    exact Tenant.separated_compl.mp (Tenant.separated_exec P req.now hcompl hc)
  obtain ⟨hseparated, hview⟩ := run_invariant_of_ensures hexec
    (Tenant.stays_handler cfg (admitted s req) hreq) ⟨h.separated, rfl⟩
  refine ⟨hseparated, ?_, ?_⟩
  · have hnext : s.store.next ≤ (after P cfg s req).store.next := next_after
    have hsum : s.store.next + (((after P cfg s req).store.next - s.store.next).toNat : ℤ) =
        (after P cfg s req).store.next := by omega
    have htables : T.view (after P cfg s req).store.toTables = T.view s.store.toTables := hview
    unfold Sight.step Tenant.viewDb
    rw [h.store, htables]
    unfold Tenant.viewDb
    dsimp only
    rw [hsum]
  · unfold after Sight.step
    dsimp only
    split_ifs with hguarded
    · have hfirst := (Bool.and_eq_true_iff.mp (Bool.and_eq_true_iff.mp hreq).1).1
      rw [hguarded, Bool.not_true, Bool.false_or] at hfirst
      exact h.limits.after_other (a := attempt req)
        ((Bool.not_eq_true' (T.peer req.peer)).mp hfirst) hclock
    · exact h.limits.mono hclock

/-- Among others the tenant is served as on a server of his own, but for the numbers they take. -/
theorem tenant_isolated (P : Platform) (cfg : Settings) (T : Tenant) (store : SqliteDb)
    (reqs : List HttpRequest) (hstore : T.Separated store.toTables)
    (hclock : reqs.Pairwise (fun r r' => r.instant ≤ r'.instant))
    (h : ∀ req ∈ reqs, T.names P req = true ∨ T.compl.names P req = true) :
    History.outputs (after P cfg) (answerTo P cfg T) (.boot store) reqs =
        History.outputs (Sight.step P cfg) (Sight.answer P cfg) (.boot (T.viewDb store))
          (sights P cfg T (.boot store) reqs) ∧
      T.viewDb (History.run (after P cfg) (.boot store) reqs).store =
        (History.run (Sight.step P cfg) (.boot (T.viewDb store))
          (sights P cfg T (.boot store) reqs)).store := by
  have hrun (s s' : AppState) (last : ℕ) (hseen : Seen T last s s')
      (hlast : ∀ req ∈ reqs, last ≤ req.instant) :
      History.outputs (after P cfg) (answerTo P cfg T) s reqs =
          History.outputs (Sight.step P cfg) (Sight.answer P cfg) s' (sights P cfg T s reqs) ∧
        T.viewDb (History.run (after P cfg) s reqs).store =
          (History.run (Sight.step P cfg) s' (sights P cfg T s reqs)).store := by
    clear hstore
    induction reqs generalizing s s' last with
    | nil => exact ⟨rfl, hseen.store.symm⟩
    | cons req reqs ih =>
      obtain ⟨hfirst, hrest⟩ := List.pairwise_cons.mp hclock
      have hnow := hlast req List.mem_cons_self
      have hih := ih hrest (fun r hr => h r (List.mem_cons_of_mem req hr))
      rw [sights, History.outputs_cons, History.outputs_cons]
      by_cases hmine : T.names P req = true
      · obtain ⟨hrespond, hnext⟩ := seen_after P cfg hseen hmine hnow
        obtain ⟨houtputs, hfinal⟩ := hih _ _ _ hnext hfirst
        rw [sight, if_pos hmine, answerTo, if_pos hmine, hrespond]
        exact ⟨congrArg _ houtputs, hfinal⟩
      · have hother := (h req List.mem_cons_self).resolve_left hmine
        obtain ⟨houtputs, hfinal⟩ := hih _ _ _ (seen_after_other hseen hother hnow) hfirst
        rw [sight, if_neg hmine, answerTo, if_neg hmine]
        exact ⟨congrArg _ houtputs, hfinal⟩
  exact hrun _ _ 0 ⟨hstore, rfl, ⟨rfl, rfl, fun _ _ _ _ => rfl⟩⟩ fun _ _ => Nat.zero_le _

def ada : Tenant where
  account id := id = "ada"
  group _ := false
  address email := emailEq email "ada@example.com"
  token hash := hash = "access-ada" || hash = "refresh-ada"
  peer ip := ip = .v4 0
  address_congr h := by
    unfold emailEq at h ⊢
    rw [of_decide_eq_true h]

/-- Ada and Bob register, Bob from another peer. Then each pushes a host, Bob first. -/
def neighbours : List HttpRequest :=
  [Reference.signUp "ada", { Reference.signUp "bob" with peer := .v4 1 },
    Reference.http 1 "" (some "Bearer access-bob") (.push [Reference.host "h" .personal none 1]),
    Reference.http 2 "" (some "Bearer access-ada") (.push [Reference.host "h" .personal none 1])]

/-- Ada is answered as if she were alone, under the number behind Bob's. -/
theorem neighbours_isolated :
    sights .reference Reference.settings ada (.boot .migrated) neighbours =
        [.own (Reference.signUp "ada"), .taken 0, .taken 1,
          .own (Reference.http 2 "" (some "Bearer access-ada")
            (.push [Reference.host "h" .personal none 1]))] ∧
      History.outputs (after .reference Reference.settings)
          (answerTo .reference Reference.settings ada) (.boot .migrated) neighbours =
        History.outputs (Sight.step .reference Reference.settings)
          (Sight.answer .reference Reference.settings) (.boot (ada.viewDb .migrated))
          (sights .reference Reference.settings ada (.boot .migrated) neighbours) :=
  ⟨by decide +kernel, (tenant_isolated .reference Reference.settings ada .migrated neighbours
    Tenant.separated_migrated (by decide +kernel) (by decide +kernel)).1⟩

end Router
end RemotierSync
