import RemotierSync.Http
import RemotierSync.Library.Lockstep

/-!
# Integers on the wire

The integers of a response are read as `i64`, and so must not have left that range. Those of a
record came in with a push, whose body was read as `i64` itself; a creation time and a last contact
are clocks of the server; a number of the change log is at most the counter. What is answered is
therefore valid for as long as the counter is.
-/

namespace RemotierSync

open Auth SqliteStore Program

/-- The integers of the tables that are ever answered. -/
structure Words (t : Tables) : Prop where
  records : ∀ r ∈ t.records.rows,
    InI64 r.sort ∧ InI64 r.updatedAt ∧ ∀ at' ∈ r.deletedAt, InI64 at'
  shares : ∀ s ∈ t.shares.rows, InI64 s.createdAt
  devices : ∀ d ∈ t.devices.rows, InI64 d.lastSeen

def SqliteDb.Counts (db : SqliteDb) : Prop := db.next < 2 ^ 63

instance (db : SqliteDb) : Decidable db.Counts := inferInstanceAs (Decidable (_ < _))

theorem SqliteDb.Counts.of_le {db db' : SqliteDb} (h : db'.Counts) (hle : db.next ≤ db'.next) :
    db.Counts :=
  lt_of_le_of_lt hle h

namespace Words

variable (P : Platform)

def Sends : Call → Prop
  | .putEnvelope _ e => (Wire.envelope P).valid e
  | _ => True

def Returns : (c : Call) → c.Ret → Prop
  | .putEnvelope .., found => ∀ seq, found = some seq → InI64 seq
  | .pull .., envelopes => ∀ e ∈ envelopes, (Wire.envelope P).valid e
  | .maxSeq _, seq => InI64 seq
  | .sharesForGroup .., rows => ∀ r ∈ rows, InI64 r.createdAt
  | .sharesForUser _, rows => ∀ r ∈ rows, InI64 r.createdAt
  | .devices _, rows => ∀ d ∈ rows, InI64 d.lastSeen
  | _, _ => True

variable {P} {t : Tables} {db : SqliteDb} {c : Call} {now : ℤ}

theorem words_migrated : Words Tables.migrated where
  records := by rintro _ ⟨⟩
  shares := by rintro _ ⟨⟩
  devices := by rintro _ ⟨⟩

theorem words_putShare (h : Words t) (hnow : InI64 now) (ownerId groupId userId wrapped : String) :
    ∀ s ∈ (t.putShare now ownerId groupId userId wrapped).2.shares.rows, InI64 s.createdAt := by
  intro s hs
  unfold Tables.putShare at hs
  split_ifs at hs
  · exact h.shares s hs
  · rcases KeyedTable.mem_upsert.mp hs with ⟨hs, _⟩ | rfl
    · exact h.shares s hs
    · cases hold : t.shares.find? (groupId, userId) with
      | none => rwa [KeyedTable.upserted_of_find?_none hold]
      | some old =>
        rw [KeyedTable.upserted_of_find?_some hold]
        exact h.shares old (KeyedTable.find?_eq_some.mp hold).1

theorem words_touchDevice (h : Words t) (hnow : InI64 now) (accountId deviceId name : String) :
    ∀ d ∈ (t.touchDevice now accountId deviceId name).2.devices.rows, InI64 d.lastSeen := by
  intro d hd
  unfold Tables.touchDevice at hd
  split_ifs at hd
  · exact h.devices d hd
  · rcases KeyedTable.mem_upsert.mp hd with ⟨hd, _⟩ | rfl
    · exact h.devices d hd
    · cases hold : t.devices.find? (accountId, deviceId) with
      | none => rwa [KeyedTable.upserted_of_find?_none hold]
      | some old =>
        rw [KeyedTable.upserted_of_find?_some hold]
        exact hnow

theorem words_putEnvelope (h : Words db.toTables) {accountId : String} {e : Envelope}
    (he : (Wire.envelope P).valid e) :
    ∀ r ∈ (putEnvelope P accountId e db).2.records.rows,
      InI64 r.sort ∧ InI64 r.updatedAt ∧ ∀ at' ∈ r.deletedAt, InI64 at' := by
  intro r hr
  rcases mem_putEnvelope hr with hr | ⟨rfl, _⟩
  · exact h.records r hr
  · obtain ⟨hsort, hclock, hdeleted, _⟩ := Wire.valid_envelope.mp he
    exact ⟨hsort, hclock, hdeleted⟩

theorem words_exec (h : Words db.toTables) (hnow : InI64 now) (hc : Sends P c) :
    Words (exec P now c db).2.toTables := by
  have hframe := exec_frame P now c db
  cases c with
  | createAccount id new =>
    obtain ⟨accounts, hf⟩ := Tables.createAccount_frame (t := db.toTables) P emailEq id new
    simp only [exec, SqliteDb.onTables, hf]
    exact ⟨h.records, h.shares, h.devices⟩
  | putToken hash id kind expiresAt =>
    obtain ⟨tokens, hf⟩ := Tables.putToken_frame (t := db.toTables) hash id kind expiresAt
    simp only [exec, SqliteDb.onTables, hf]
    exact ⟨h.records, h.shares, h.devices⟩
  | putShare ownerId groupId userId wrapped =>
    obtain ⟨shares, hf⟩ :=
      Tables.putShare_frame (t := db.toTables) now ownerId groupId userId wrapped
    have hshares := words_putShare h hnow ownerId groupId userId wrapped
    simp only [exec, SqliteDb.onTables]
    rw [hf] at hshares ⊢
    exact ⟨h.records, hshares, h.devices⟩
  | touchDevice accountId deviceId name =>
    obtain ⟨devices, hf⟩ :=
      Tables.touchDevice_frame (t := db.toTables) now accountId deviceId name
    have hdevices := words_touchDevice h hnow accountId deviceId name
    simp only [exec, SqliteDb.onTables]
    rw [hf] at hdevices ⊢
    exact ⟨h.records, h.shares, hdevices⟩
  | putEnvelope accountId e =>
    refine ⟨words_putEnvelope h hc, ?_, ?_⟩
    · rw [show (exec P now (.putEnvelope accountId e) db).2.shares = db.shares from
        putEnvelope_frame.2.2.1]
      exact h.shares
    · rw [show (exec P now (.putEnvelope accountId e) db).2.devices = db.devices from
        putEnvelope_frame.2.2.2]
      exact h.devices
  | deleteShare ownerId groupId userId =>
    exact ⟨h.records, fun s hs => h.shares s (Tables.mem_deleteShare.mp hs).1, h.devices⟩
  | _ => exact ⟨h.records, h.shares, h.devices⟩

theorem inI64_of_le {n : ℤ} (hn : 0 ≤ n) (hle : n ≤ db.next) (hnext : db.Counts) : InI64 n := by
  unfold SqliteDb.Counts at hnext
  unfold InI64
  omega

theorem valid_of_decodes (h : Words db.toTables) (hwf : WellFormed db) (hnext : db.Counts)
    {r : RecordEntry} {e : Envelope} (hr : r ∈ db.records.rows) (hdec : Sync.Decodes P r e) :
    (Wire.envelope P).valid e := by
  obtain ⟨_, _, _, _, _, _, _, _, rfl⟩ := envelopeFromRow_eq_ok.mp hdec
  obtain ⟨hsort, hclock, hdeleted⟩ := h.records r hr
  exact Wire.valid_envelope.mpr ⟨hsort, hclock, hdeleted,
    inI64_of_le (hwf.seq_pos r hr).le (hwf.seq_le r hr) hnext⟩

theorem valid_of_pull (h : Words db.toTables) (hwf : WellFormed db) (hnext : db.Counts)
    {accountId : String} {cursor limit : ℤ} {es : List Envelope}
    (hes : SqliteStore.pull P accountId cursor limit db = .ok es) :
    ∀ e ∈ es, (Wire.envelope P).valid e := by
  intro e he
  obtain ⟨r, hr, hdec⟩ := Sync.exists_row_of_decodes (Sync.forall₂_of_mapM_eq_ok hes) he
  have hrow : r ∈ db.pullRows accountId cursor := by
    split_ifs at hr
    · exact hr
    · exact List.mem_of_mem_take hr
  exact valid_of_decodes h hwf hnext (Tables.mem_pullRows.mp hrow).1.1 hdec

theorem createdAt_of_shareRow (h : Words t) {p : ShareEntry → Bool}
    {party : ShareEntry → Option Account} {row : ShareRow}
    (hrow : row ∈ (P.scanShares (t.shares.rows.filter p)).filterMap
      (fun s => (party s).map (Tables.shareRow s))) : InI64 row.createdAt := by
  obtain ⟨s, hs, hparty⟩ := List.mem_filterMap.mp hrow
  obtain ⟨_, _, rfl⟩ := Option.map_eq_some_iff.mp hparty
  exact h.shares s (List.mem_of_mem_filter (P.mem_scanShares.mp hs))

/-- What a call answers while the counter is a word. -/
theorem returns_exec (h : Words db.toTables) (hwf : WellFormed db)
    (hnext : (exec P now c db).2.Counts) {r : c.Ret}
    (hr : (exec P now c db).1 = .ok r) : Returns P c r := by
  cases c with
  | putEnvelope accountId e =>
    rintro seq rfl
    have hfound : (putEnvelope P accountId e db).1 = .ok (some seq) := hr
    have hseq := next_of_accepted hfound
    have hnonneg := hwf.next_nonneg
    obtain ⟨_, _, rfl⟩ := of_accepted hfound
    exact inI64_of_le (by omega) hseq.ge hnext
  | pull accountId cursor limit => exact valid_of_pull h hwf hnext hr
  | maxSeq accountId =>
    obtain rfl : db.next = r := Except.ok.inj hr
    exact inI64_of_le hwf.next_nonneg le_rfl hnext
  | sharesForGroup ownerId groupId =>
    obtain rfl : db.sharesForGroup P ownerId groupId = r := Except.ok.inj hr
    exact fun row hrow => createdAt_of_shareRow h hrow
  | sharesForUser userId =>
    obtain rfl : db.sharesForUser P userId = r := Except.ok.inj hr
    exact fun row hrow => createdAt_of_shareRow h hrow
  | devices accountId =>
    obtain rfl : db.devicesOf P accountId = r := Except.ok.inj hr
    intro row hrow
    obtain ⟨d, hd, rfl⟩ := List.mem_map.mp hrow
    exact h.devices d
      (List.mem_of_mem_filter (P.mem_scanDevices.mp ((List.mem_insertionSort _).mp hd)))
  | _ => trivial

/-! ## What handlers answer -/

variable (P) in
/-- The program sends words as long as it is answered words, and what it returns satisfies `Q`. -/
abbrev Speaks {α : Type} (Q : α → Prop) (p : Handler α) : Prop :=
  Ensures (Sends P) (Returns P) Q p

section Handlers

variable {α : Type} {Q : α → Prop} {cfg : Config} {minted : Minted} {caller : Caller}

theorem sends_of_onAccounts (c : Call) (h : OnAccounts c) : Sends P c := by
  cases c <;> trivial

theorem speaks_of_onAccounts {p : Handler α} (h : Issues OnAccounts p) :
    Speaks P (fun _ => True) p :=
  ensures_of_issues (h.mono sends_of_onAccounts)

theorem speaks_of_reads {p : Handler α} (h : Issues Router.Reads p) :
    Speaks P (fun _ => True) p := by
  refine ensures_of_issues (h.mono fun c hc => ?_)
  cases c with
  | putEnvelope accountId e => exact absurd hc (by simp [Router.Reads, writes])
  | _ => trivial

theorem speaks_issueSession (httl : InI64 cfg.accessTtlSecs) (account : Account)
    (deviceId deviceName : String) :
    Speaks P (fun s => Wire.session.valid s)
      (issueSession P cfg now minted account deviceId deviceName) := by
  refine ⟨trivial, fun _ _ => ⟨trivial, fun _ _ => ?_⟩⟩
  split_ifs
  · exact ⟨trivial, fun _ _ => Wire.valid_session.mpr httl⟩
  · exact Wire.valid_session.mpr httl

theorem speaks_register (httl : InI64 cfg.accessTtlSecs) {admitted : Bool} {newId : String}
    {salts : Salts} {body : RegisterRequest} :
    Speaks P (fun s => Wire.session.valid s)
      (register P cfg now admitted newId salts minted body) := by
  unfold register
  apply ensures_guard_bind
  by_cases hopen : (!cfg.registrationOpen) = true
  · rw [if_pos hopen]
    trivial
  rw [if_neg hopen]
  apply ensures_lift_bind
  intro _
  by_cases hrecovery : body.recoveryMaterial.wrappedPersonalKey.ciphertext = ""
  · rw [if_pos hrecovery]
    trivial
  rw [if_neg hrecovery]
  apply ensures_lift_bind
  intro _
  apply ensures_lift_bind
  intro _
  exact ⟨trivial, fun account _ => speaks_issueSession httl account _ _⟩

theorem speaks_signIn (httl : InI64 cfg.accessTtlSecs) {admitted : Bool}
    {email deviceId deviceName : String} {accepts : Account → Bool} {seen : Account → Account} :
    Speaks P (fun s => Wire.session.valid s)
      (signIn P cfg now admitted minted email accepts seen deviceId deviceName) := by
  apply ensures_guard_bind
  refine ⟨trivial, fun found _ => ?_⟩
  cases found with
  | none => trivial
  | some account =>
    change Speaks P _ (ite _ _ _)
    split_ifs
    · trivial
    · exact speaks_issueSession httl _ _ _

theorem speaks_refresh (httl : InI64 cfg.accessTtlSecs) {refreshToken : String} :
    Speaks P (fun s => Wire.session.valid s) (refresh P cfg now minted refreshToken) := by
  refine ⟨trivial, fun row _ => ?_⟩
  cases row with
  | none => trivial
  | some row =>
    refine ⟨trivial, fun found _ => ?_⟩
    cases found with
    | none => trivial
    | some account => exact speaks_issueSession httl _ _ _

theorem speaks_pull {cursor : ℤ} (hcursor : InI64 cursor) :
    Speaks P (fun r => (Wire.pullResponse P).valid r) (Sync.pull cfg caller cursor) := by
  refine ⟨trivial, fun es hes => ?_⟩
  dsimp only
  have hpage : ∀ e ∈ (if decide ((es.length : ℤ) > cfg.maxPage) = true
      then es.take cfg.maxPage.toNat else es), (Wire.envelope P).valid e := by
    intro e he
    split_ifs at he
    · exact hes e (List.mem_of_mem_take he)
    · exact hes e he
  refine Wire.valid_pullResponse.mpr ⟨hpage, ?_⟩
  dsimp only
  cases hlast : (if decide ((es.length : ℤ) > cfg.maxPage) = true
      then es.take cfg.maxPage.toNat else es).getLast? with
  | none => exact hcursor
  | some e => exact (Wire.valid_envelope.mp (hpage e (List.mem_of_getLast? hlast))).2.2.2

def Reported (st : Sync.PushState) : Prop := ∀ a ∈ st.report.accepted, InI64 a.seq

theorem speaks_store {storageAccount : String} {e : Envelope} {st : Sync.PushState}
    (he : (Wire.envelope P).valid e) (hst : Reported st) :
    Speaks P Reported (Sync.store storageAccount e st) := by
  refine ⟨he, fun found hfound => ?_⟩
  cases found with
  | none => exact hst
  | some seq =>
    intro a ha
    rcases List.mem_append.mp ha with ha | ha
    · exact hst a ha
    · obtain rfl := List.mem_singleton.mp ha
      exact hfound seq rfl

theorem speaks_askOnce {β : Type} {known : List (String × β)} {groupId : String}
    {question : Handler β} (hquestion : Speaks P (fun _ => True) question) :
    Speaks P (fun _ => True) (Sync.askOnce known groupId question) := by
  unfold Sync.askOnce
  split
  · trivial
  · exact ensures_bind hquestion fun _ _ => trivial

theorem speaks_pushOne {e : Envelope} {st : Sync.PushState} (he : (Wire.envelope P).valid e)
    (hst : Reported st) : Speaks P Reported (Sync.pushOne cfg caller now e st) := by
  unfold Sync.pushOne
  split
  · exact hst
  split
  · exact speaks_store he hst
  next groupId _ =>
  have hwritable : Speaks P (fun _ => True) (ask (.canWriteGroup caller.accountId groupId)) :=
    ⟨trivial, fun _ _ => trivial⟩
  have howner : Speaks P (fun _ => True) (ask (.shareOwner groupId)) :=
    ⟨trivial, fun _ _ => trivial⟩
  refine ensures_bind (speaks_askOnce hwritable) fun p _ => ?_
  obtain ⟨allowed, writable⟩ := p
  dsimp only
  split_ifs
  · refine ensures_bind (speaks_askOnce howner) fun _ _ => ?_
    exact speaks_store he hst
  · exact hst

theorem speaks_pushAll {body : List Envelope} {st : Sync.PushState}
    (hbody : ∀ e ∈ body, (Wire.envelope P).valid e) (hst : Reported st) :
    Speaks P Reported (Sync.pushAll cfg caller now body st) := by
  induction body generalizing st with
  | nil => exact hst
  | cons e rest ih =>
    refine ensures_bind (speaks_pushOne (hbody e List.mem_cons_self) hst) fun st hst => ?_
    exact ih (fun e he => hbody e (List.mem_cons_of_mem _ he)) hst

theorem speaks_push {body : List Envelope} (hbody : (Wire.pushRequest P).valid body) :
    Speaks P (fun r => Wire.pushResponse.valid r) (Sync.push cfg caller now body) := by
  have hinitial : Reported .initial := by rintro _ ⟨⟩
  refine ensures_bind (speaks_pushAll hbody hinitial) fun st hst => ?_
  exact ⟨trivial, fun _ hseq => Wire.valid_pushResponse.mpr ⟨hst, hseq⟩⟩

theorem speaks_shares {c : Call} {rows : c.Ret → List ShareRow} (hc : Sends P c)
    (hrows : ∀ r, Returns P c r → ∀ row ∈ rows r, InI64 row.createdAt) :
    Speaks P (fun shares => (Codec.list Wire.share).valid shares)
      (ask c >>= fun r => (return (rows r).map Shares.share : Handler _)) := by
  refine ⟨hc, fun r hr => ?_⟩
  intro share hshare
  obtain ⟨row, hrow, rfl⟩ := List.mem_map.mp hshare
  exact Wire.valid_share.mpr (hrows r hr row hrow)

theorem speaks_create (caller : Caller) (body : ShareRequest) :
    Speaks P (fun _ => True) (Shares.create caller body) := by
  unfold Shares.create
  split_ifs
  · trivial
  · refine ⟨trivial, fun found _ => ?_⟩
    cases found with
    | none => trivial
    | some account => exact ⟨trivial, fun _ _ => trivial⟩

theorem speaks_devices :
    Speaks P (fun devices => (Codec.list Wire.device).valid devices) (Devices.list caller) := by
  refine ⟨trivial, fun rows hrows => ?_⟩
  intro device hdevice
  obtain ⟨row, hrow, rfl⟩ := List.mem_map.mp hdevice
  exact Wire.valid_device.mpr (hrows row hrow)

theorem speaks_withCaller {req : HttpRequest} {f : Caller → Handler α}
    (hf : ∀ caller, Speaks P Q (f caller)) : Speaks P Q (Router.withCaller P req f) := by
  unfold Router.withCaller authenticate
  split
  · trivial
  · refine ⟨trivial, fun row _ => ?_⟩
    cases row with
    | none => trivial
    | some row => exact hf _

end Handlers

end Words

def Body.Valid (P : Platform) : Body → Prop
  | .instanceInfo i => Wire.instanceInfo.valid i
  | .session s => Wire.session.valid s
  | .keyMaterial k => Wire.keyMaterial.valid k
  | .userLookup u => Wire.userLookup.valid u
  | .pull r => (Wire.pullResponse P).valid r
  | .push r => Wire.pushResponse.valid r
  | .shares l => (Codec.list Wire.share).valid l
  | .devices l => (Codec.list Wire.device).valid l
  | .error e => Wire.apiError.valid e
  | .empty => True
  | .text _ => True

namespace Words

variable {P : Platform}

/-- The handler of a well-formed request answers a valid body. -/
theorem speaks_handler {cfg : Settings} (httl : InI64 cfg.accessTtlSecs) {req : HttpRequest}
    (hreq : req.endpoint.WellFormed P) (admitted : Bool) :
    Speaks P (fun r : Response => r.body.Valid P) (Router.handler P cfg admitted req) := by
  have hdone {α : Type} {Q : α → Prop} {p : Handler α} {body : α → Body}
      (hp : Speaks P Q p) (hbody : ∀ a, Q a → (body a).Valid P) :
      Speaks P (fun r : Response => r.body.Valid P)
        (p >>= fun a => (return Response.ok (body a) : Handler Response)) :=
    ensures_bind hp fun a ha => hbody a ha
  have hempty {α : Type} {Q : α → Prop} {p : Handler α} (hp : Speaks P Q p) :
      Speaks P (fun r : Response => r.body.Valid P)
        (p >>= fun _ => (return Response.ok .empty : Handler Response)) :=
    hdone hp fun _ _ => trivial
  unfold Router.handler
  cases hendpoint : req.endpoint with
  | info => exact Wire.valid_instanceInfo _
  | register body => exact hdone (speaks_register httl) fun _ h => h
  | login body =>
    dsimp only
    rw [login_eq]
    exact hdone (speaks_signIn httl) fun _ h => h
  | refresh refreshToken => exact hdone (speaks_refresh httl) fun _ h => h
  | recover body =>
    dsimp only
    rw [recover_eq]
    exact hdone (speaks_signIn httl) fun _ h => h
  | rewrap body =>
    exact speaks_withCaller fun caller =>
      hempty (speaks_of_onAccounts (issues_rewrap _ _))
  | logout =>
    exact speaks_withCaller fun caller =>
      hempty (speaks_of_onAccounts (issues_logout _))
  | keys =>
    exact speaks_withCaller fun caller =>
      hdone (speaks_of_reads (Router.reads_keys caller)) fun _ _ => Wire.valid_keyMaterial _
  | lookup email =>
    exact speaks_withCaller fun caller =>
      hdone (speaks_of_reads (Router.reads_lookup email)) fun _ _ => Wire.valid_userLookup _
  | pull cursor =>
    rw [hendpoint] at hreq
    exact speaks_withCaller fun caller => hdone (speaks_pull hreq) fun _ h => h
  | push envelopes =>
    rw [hendpoint] at hreq
    exact speaks_withCaller fun caller => hdone (speaks_push hreq) fun _ h => h
  | mine =>
    exact speaks_withCaller fun caller =>
      hdone (speaks_shares (c := .sharesForUser caller.accountId) trivial fun _ h => h)
        fun _ h => h
  | create body =>
    exact speaks_withCaller fun caller => hempty (speaks_create caller body)
  | list groupId =>
    exact speaks_withCaller fun caller =>
      hdone (speaks_shares (c := .sharesForGroup caller.accountId groupId) trivial fun _ h => h)
        fun _ h => h
  | remove groupId userId =>
    exact speaks_withCaller fun caller =>
      hempty (Q := fun _ => True) ⟨trivial, fun _ _ => trivial⟩
  | devices => exact speaks_withCaller fun caller => hdone speaks_devices fun _ h => h
  | malformed authenticated rejection =>
    cases authenticated with
    | false => trivial
    | true => exact speaks_withCaller fun caller => trivial

variable {cfg : Settings} {s : AppState} {req : HttpRequest}

theorem words_outcome (httl : InI64 cfg.accessTtlSecs) (hnow : InI64 req.now)
    (hreq : req.endpoint.WellFormed P) (hs : Words s.store.toTables) (hwf : WellFormed s.store)
    (hnext : (Router.outcome P cfg s req).2.Counts) :
    Words (Router.outcome P cfg s req).2.toTables ∧
      ∀ r, (Router.outcome P cfg s req).1 = .ok r → r.body.Valid P := by
  have hback (c : Call) (db : SqliteDb) (h : (exec P req.now c db).2.Counts) : db.Counts :=
    h.of_le grows_exec.1
  have hkeeps := run_ensures_within (I := fun db => Words db.toTables ∧ WellFormed db)
    (U := SqliteDb.Counts) (K := Sends P) (R := Returns P) hback
    (fun c db hc h hafter => ⟨⟨words_exec h.1 hnow hc, wellFormed_exec h.2⟩,
      fun r hr => returns_exec h.1 h.2 hafter hr⟩)
    (speaks_handler httl hreq (Router.admitted s req)) ⟨hs, hwf⟩ hnext
  exact ⟨hkeeps.1.1, hkeeps.2⟩

theorem valid_respond (httl : InI64 cfg.accessTtlSecs) (hnow : InI64 req.now)
    (hreq : req.endpoint.WellFormed P) (hs : Words s.store.toTables) (hwf : WellFormed s.store)
    (hnext : (Router.outcome P cfg s req).2.Counts) :
    (Router.respond P cfg s req).body.Valid P := by
  have hvalid := (words_outcome httl hnow hreq hs hwf hnext).2
  unfold Router.respond
  cases hout : (Router.outcome P cfg s req).1 with
  | error e => exact Wire.valid_apiError _
  | ok r => exact hvalid r hout

end Words
end RemotierSync
