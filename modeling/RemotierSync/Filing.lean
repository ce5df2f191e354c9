import RemotierSync.Sync
import RemotierSync.Writes

/-!
# Where a push files its envelopes

`route` says for one envelope where it is filed, or why it is refused, given the shares at the
time of the push. The handler asks the store about each group once and remembers the answers;
`run_pushOne` shows that remembering changes nothing, because the answers depend on the shares
alone and a push writes none. `run_push` then describes a whole push: the envelopes that are
routed somewhere are written one after the other, and every other one is reported with the
reason `route` gives.
-/

namespace RemotierSync.Sync

open SqliteStore

section Remembering

variable {σ β : Type} {exec : (c : Call) → σ → Except Error c.Ret × σ} {s : σ}
  {answer : String → β} {known : List (String × β)} {groupId : String} {question : Handler β}

def Agrees (answer : String → β) (known : List (String × β)) : Prop :=
  ∀ groupId b, known.lookup groupId = some b → b = answer groupId

theorem agrees_nil : Agrees answer [] := by
  intro groupId b h
  simp at h

theorem Agrees.cons (h : Agrees answer known) :
    Agrees answer ((groupId, answer groupId) :: known) := by
  intro g b hb
  by_cases hg : g = groupId
  · subst hg
    simpa [eq_comm] using hb
  · apply h g b
    rwa [List.lookup_cons, beq_false_of_ne hg] at hb

theorem run_askOnce (groupId : String)
    (hq : Program.run exec question s = (.ok (answer groupId), s))
    (h : Agrees answer known) : ∃ known', Agrees answer known' ∧
      Program.run exec (askOnce known groupId question) s = (.ok (answer groupId, known'), s) := by
  unfold askOnce
  cases hk : known.lookup groupId with
  | some b =>
    rw [h groupId b hk]
    exact ⟨known, h, rfl⟩
  | none =>
    refine ⟨(groupId, answer groupId) :: known, h.cons, ?_⟩
    rw [Program.run_bind_ok _ hq]
    rfl

theorem issues_askOnce {K : Call → Prop} (h : Program.Issues K question) :
    Program.Issues K (askOnce known groupId question) := by
  unfold askOnce
  cases known.lookup groupId with
  | some answer => trivial
  | none => exact Program.issues_bind h (fun _ => trivial)

end Remembering

variable (P : Platform) (cfg : Config) (caller : Caller) (now : ℤ)

/-- The account an envelope is filed under, or why it is refused. -/
def route (t : Tables) (e : Envelope) : Except RejectReason String :=
  match refuse cfg e now with
  | some reason => .error reason
  | none =>
    match e.keyRef with
    | .personal => .ok caller.accountId
    | .group groupId =>
      if t.canWriteGroup caller.accountId groupId then
        .ok ((t.shareOwner P groupId).getD caller.accountId)
      else .error .notAMember

/-- The writes of a batch: its routed envelopes, each with the account it is filed under. -/
def filed (t : Tables) (body : List Envelope) : List (String × Envelope) :=
  body.filterMap (fun e => (route P cfg caller now t e).toOption.map (fun a => (a, e)))

def fileAt (accountId : String) (e : Envelope) (rep : Report) (db : SqliteDb) :
    Except Error Report × SqliteDb :=
  match putEnvelope P accountId e db with
  | (.ok (some seq), db') => (.ok (rep.accept e seq), db')
  | (.ok none, db') => (.ok (rep.reject e .stale), db')
  | (.error err, db') => (.error err, db')

def fileOne (e : Envelope) (rep : Report) (db : SqliteDb) : Except Error Report × SqliteDb :=
  match route P cfg caller now db.toTables e with
  | .ok accountId => fileAt P accountId e rep db
  | .error reason => (.ok (rep.reject e reason), db)

def fileAll : List Envelope → Report → SqliteDb → Except Error Report × SqliteDb
  | [], rep, db => (.ok rep, db)
  | e :: rest, rep, db =>
    match fileOne P cfg caller now e rep db with
    | (.ok rep', db') => fileAll rest rep' db'
    | (.error err, db') => (.error err, db')

variable {P cfg caller now} {e : Envelope} {rep : Report} {db : SqliteDb} {st : PushState}
  {body : List Envelope} {accountId : String}

theorem answers_congr {t t' : Tables} (h : t'.shares = t.shares) :
    t'.canWriteGroup = t.canWriteGroup ∧ t'.shareOwner P = t.shareOwner P := by
  refine ⟨?_, ?_⟩
  · funext accountId groupId
    rw [Tables.canWriteGroup, h, Tables.canWriteGroup]
  · funext groupId
    rw [Tables.shareOwner, h, Tables.shareOwner]

theorem route_congr {t t' : Tables} (h : t'.shares = t.shares) :
    route P cfg caller now t' e = route P cfg caller now t e := by
  obtain ⟨hw, ho⟩ := answers_congr (P := P) h
  rw [route, hw, ho, route]

theorem filed_congr {t t' : Tables} (h : t'.shares = t.shares) :
    filed P cfg caller now t' body = filed P cfg caller now t body := by
  simp only [filed, route_congr h]

theorem mem_filed {t : Tables} : (accountId, e) ∈ filed P cfg caller now t body ↔
    e ∈ body ∧ route P cfg caller now t e = .ok accountId := by
  simp only [filed, List.mem_filterMap, Option.map_eq_some_iff, Prod.mk.injEq]
  constructor
  · rintro ⟨e', he', a, ha, rfl, rfl⟩
    cases hr : route P cfg caller now t e' with
    | error reason => simp [hr, Except.toOption] at ha
    | ok b =>
      obtain rfl : b = a := by simpa [hr, Except.toOption] using ha
      exact ⟨he', rfl⟩
  · rintro ⟨he, hr⟩
    exact ⟨e, he, accountId, by rw [hr]; rfl, rfl, rfl⟩

theorem routed_of_filed {t : Tables} {before after : List (String × Envelope)}
    (h : filed P cfg caller now t body = before ++ (accountId, e) :: after) :
    e ∈ body ∧ route P cfg caller now t e = .ok accountId := by
  apply mem_filed.mp
  rw [h]
  simp

theorem route_eq_ok {t : Tables} : route P cfg caller now t e = .ok accountId ↔
    refuse cfg e now = none ∧ ((e.keyRef = .personal ∧ caller.accountId = accountId) ∨
      ∃ groupId, e.keyRef = .group groupId ∧ t.canWriteGroup caller.accountId groupId = true ∧
        (t.shareOwner P groupId).getD caller.accountId = accountId) := by
  unfold route
  cases refuse cfg e now with
  | some reason => simp
  | none =>
    cases e.keyRef with
    | personal => simp
    | group groupId =>
      dsimp only
      split_ifs with hallowed <;> simp [hallowed]

theorem route_personal {t : Tables} (h : route P cfg caller now t e = .ok accountId)
    (hkey : e.keyRef = .personal) : accountId = caller.accountId := by
  obtain ⟨_, ⟨_, hid⟩ | ⟨groupId, hkey', _⟩⟩ := route_eq_ok.mp h
  · exact hid.symm
  · rw [hkey] at hkey'
    cases hkey'

theorem route_group {t : Tables} {groupId : String}
    (h : route P cfg caller now t e = .ok accountId) (hkey : e.keyRef = .group groupId) :
    t.canWriteGroup caller.accountId groupId = true ∧
      (t.shareOwner P groupId).getD caller.accountId = accountId := by
  obtain ⟨_, ⟨hkey', _⟩ | ⟨groupId', hkey', hrouted⟩⟩ := route_eq_ok.mp h
  · rw [hkey] at hkey'
    cases hkey'
  · obtain rfl := KeyRef.group.inj (hkey.symm.trans hkey')
    exact hrouted

/-! ## The handler files as `fileAll` does -/

/-- The state of the loop remembers what the store would answer. -/
def Coherent (P : Platform) (caller : Caller) (t : Tables) (st : PushState) : Prop :=
  Agrees (t.canWriteGroup caller.accountId) st.writable ∧ Agrees (t.shareOwner P) st.owners

theorem coherent_congr {t t' : Tables} (h : t'.shares = t.shares) (hst : Coherent P caller t st) :
    Coherent P caller t' st := by
  obtain ⟨hw, ho⟩ := answers_congr (P := P) h
  rwa [Coherent, hw, ho]

def Matches (P : Platform) (caller : Caller) (result : Except Error PushState × SqliteDb)
    (expected : Except Error Report × SqliteDb) : Prop :=
  result.2 = expected.2 ∧
    match result.1, expected.1 with
    | .ok st, .ok rep => st.report = rep ∧ Coherent P caller expected.2.toTables st
    | .error err, .error err' => err = err'
    | _, _ => False

theorem run_store (h : Coherent P caller db.toTables st) :
    Matches P caller (Program.run (exec P now) (store accountId e st) db)
      (fileAt P accountId e st.report db) := by
  have hshares : (putEnvelope P accountId e db).2.shares = db.shares := putEnvelope_shares
  unfold store fileAt
  rw [Program.run_bind, run_ask]
  rcases hput : putEnvelope P accountId e db with ⟨err | _ | seq, db'⟩ <;>
    rw [hput] at hshares <;> simp only [exec, hput]
  · exact ⟨rfl, rfl⟩
  · exact ⟨rfl, rfl, coherent_congr hshares h⟩
  · exact ⟨rfl, rfl, coherent_congr hshares h⟩

section Groups

variable {σ : Type} {exec : (c : Call) → σ → Except Error c.Ret × σ} {tables : σ → Tables} {s : σ}

structure AnswersGroups (P : Platform) (exec : (c : Call) → σ → Except Error c.Ret × σ)
    (tables : σ → Tables) : Prop where
  canWriteGroup : ∀ s accountId groupId, exec (.canWriteGroup accountId groupId) s =
    (.ok ((tables s).canWriteGroup accountId groupId), s)
  shareOwner : ∀ s groupId, exec (.shareOwner groupId) s =
    (.ok ((tables s).shareOwner P groupId), s)

theorem AnswersGroups.sqlite : AnswersGroups P (SqliteStore.exec P now) SqliteDb.toTables where
  canWriteGroup _ _ _ := rfl
  shareOwner _ _ := rfl

theorem run_pushOne_of_error (hexec : AnswersGroups P exec tables)
    (h : Coherent P caller (tables s) st) {reason : RejectReason}
    (hroute : route P cfg caller now (tables s) e = .error reason) :
    ∃ st', st'.report = st.report.reject e reason ∧ Coherent P caller (tables s) st' ∧
      Program.run exec (pushOne cfg caller now e st) s = (.ok st', s) := by
  unfold route at hroute
  unfold pushOne
  cases hrefuse : refuse cfg e now with
  | some refusal =>
    rw [hrefuse] at hroute
    obtain rfl := Except.error.inj hroute
    exact ⟨{ st with report := st.report.reject e refusal }, rfl, h, rfl⟩
  | none =>
    simp only [hrefuse] at hroute
    cases hkey : e.keyRef with
    | personal => simp [hkey] at hroute
    | group groupId =>
      simp only [hkey] at hroute
      split_ifs at hroute with hallowed
      obtain rfl := Except.error.inj hroute
      obtain ⟨writable, hw, hrun⟩ := run_askOnce groupId
        ((run_ask exec _ s).trans (hexec.canWriteGroup s caller.accountId groupId)) h.1
      dsimp only
      rw [Program.run_bind_ok _ hrun]
      dsimp only
      rw [if_neg hallowed]
      exact ⟨{ st with writable := writable, report := st.report.reject e .notAMember }, rfl,
        ⟨hw, h.2⟩, rfl⟩

theorem run_pushOne_of_ok (hexec : AnswersGroups P exec tables)
    (h : Coherent P caller (tables s) st)
    (hroute : route P cfg caller now (tables s) e = .ok accountId) :
    ∃ st', st'.report = st.report ∧ Coherent P caller (tables s) st' ∧
      Program.run exec (pushOne cfg caller now e st) s =
        Program.run exec (store accountId e st') s := by
  obtain ⟨hrefuse, ⟨hkey, rfl⟩ | ⟨groupId, hkey, hallowed, rfl⟩⟩ := route_eq_ok.mp hroute
  · refine ⟨st, rfl, h, ?_⟩
    simp only [pushOne, hrefuse, hkey]
  · obtain ⟨writable, hw, hrun⟩ := run_askOnce groupId
      ((run_ask exec _ s).trans (hexec.canWriteGroup s caller.accountId groupId)) h.1
    obtain ⟨owners, ho, hrun'⟩ := run_askOnce groupId
      ((run_ask exec _ s).trans (hexec.shareOwner s groupId)) h.2
    refine ⟨{ st with writable := writable, owners := owners }, rfl, ⟨hw, ho⟩, ?_⟩
    simp only [pushOne, hrefuse, hkey]
    rw [Program.run_bind_ok _ hrun]
    dsimp only
    rw [if_pos hallowed, Program.run_bind_ok _ hrun']

end Groups

/-- One turn of the loop files one envelope, and what it remembers stays true. -/
theorem run_pushOne (cfg : Config) (now : ℤ) (e : Envelope) (h : Coherent P caller db.toTables st) :
    Matches P caller (Program.run (exec P now) (pushOne cfg caller now e st) db)
      (fileOne P cfg caller now e st.report db) := by
  unfold fileOne
  cases hroute : route P cfg caller now db.toTables e with
  | error reason =>
    obtain ⟨st', hreport, hst, hrun⟩ := run_pushOne_of_error .sqlite h hroute
    rw [hrun]
    exact ⟨rfl, hreport, hst⟩
  | ok accountId =>
    obtain ⟨st', hreport, hst, hrun⟩ := run_pushOne_of_ok .sqlite h hroute
    rw [hrun, ← hreport]
    exact run_store hst

theorem run_pushAll (cfg : Config) (now : ℤ) (body : List Envelope)
    (h : Coherent P caller db.toTables st) :
    Matches P caller (Program.run (exec P now) (pushAll cfg caller now body st) db)
      (fileAll P cfg caller now body st.report db) := by
  induction body generalizing st db with
  | nil => exact ⟨rfl, rfl, h⟩
  | cons e rest ih =>
    have hone := run_pushOne cfg now e h
    unfold pushAll fileAll
    rw [Program.run_bind]
    rcases hrun : Program.run (exec P now) (pushOne cfg caller now e st) db with
      ⟨err | st', db'⟩ <;>
      rcases hfile : fileOne P cfg caller now e st.report db with ⟨err' | rep', db''⟩ <;>
      rw [hrun, hfile] at hone <;> obtain ⟨rfl, hmatch⟩ := hone
    · exact ⟨rfl, hmatch⟩
    · exact hmatch.elim
    · exact hmatch.elim
    · obtain ⟨rfl, hst⟩ := hmatch
      exact ih hst

/-! ## What a push leaves and answers -/

/-- What is reported while a batch takes one state to another: every refusal with its reason,
and the number of every row written. -/
structure Reports (P : Platform) (cfg : Config) (caller : Caller) (now : ℤ) (body : List Envelope)
    (rep rep' : Report) (db db' : SqliteDb) : Prop where
  accepted_subset : rep.accepted ⊆ rep'.accepted
  rejected_subset : rep.rejected ⊆ rep'.rejected
  refused : ∀ e ∈ body, ∀ reason, route P cfg caller now db.toTables e = .error reason →
    ⟨e.id, e.kind.asStr, reason⟩ ∈ rep'.rejected
  stored : ∀ r ∈ db'.records.rows, r ∈ db.records.rows ∨ ⟨r.id, r.kind, r.seq⟩ ∈ rep'.accepted

theorem reports_of_refused {reason : RejectReason}
    (h : route P cfg caller now db.toTables e = .error reason) :
    Reports P cfg caller now [e] rep (rep.reject e reason) db db where
  accepted_subset := List.Subset.refl _
  rejected_subset := by simp [Report.reject]
  refused := by
    intro e' he' reason' hr
    obtain rfl := List.mem_singleton.mp he'
    obtain rfl : reason = reason' := Except.error.inj (h.symm.trans hr)
    simp [Report.reject]
  stored := fun r hr => Or.inl hr

theorem fileAt_of_fileable (rep : Report)
    (hroute : route P cfg caller now db.toTables e = .ok accountId)
    (hfile : Fileable db accountId e) :
    ∃ rep', fileAt P accountId e rep db = (.ok rep', (putEnvelope P accountId e db).2) ∧
      Reports P cfg caller now [e] rep rep' db (putEnvelope P accountId e db).2 := by
  have hrefused : ∀ e' ∈ [e], ∀ reason, route P cfg caller now db.toTables e' = .error reason →
      False := by
    intro e' he' reason hr
    rw [List.mem_singleton.mp he', hroute] at hr
    exact absurd hr (by simp)
  have hput : putEnvelope P accountId e db = (_, (putEnvelope P accountId e db).2) :=
    Prod.ext (putEnvelope_fst hfile) rfl
  by_cases hs : Supersedes (db.records.find? (recordKey accountId e)) e.clock
  · rw [if_pos hs] at hput
    refine ⟨rep.accept e (db.next + 1), ?_, ?_, List.Subset.refl _, ?_, ?_⟩
    · unfold fileAt
      rw [hput]
    · simp [Report.accept]
    · exact fun e' he' reason hr => (hrefused e' he' reason hr).elim
    · intro r hr
      rcases mem_putEnvelope hr with hr | ⟨rfl, _⟩
      · exact Or.inl hr
      · exact Or.inr (by simp [Report.accept, Platform.recordEntry])
  · rw [if_neg hs] at hput
    refine ⟨rep.reject e .stale, ?_, List.Subset.refl _, ?_, ?_, ?_⟩
    · unfold fileAt
      rw [hput]
    · simp [Report.reject]
    · exact fun e' he' reason hr => (hrefused e' he' reason hr).elim
    · intro r hr
      rcases mem_putEnvelope hr with hr | ⟨_, _, hsup⟩
      · exact Or.inl hr
      · exact absurd hsup hs

theorem Reports.cons {rep' rep'' : Report} {db' db'' : SqliteDb} {rest : List Envelope}
    (hshares : db'.shares = db.shares) (h : Reports P cfg caller now [e] rep rep' db db')
    (h' : Reports P cfg caller now rest rep' rep'' db' db'') :
    Reports P cfg caller now (e :: rest) rep rep'' db db'' where
  accepted_subset := List.Subset.trans h.accepted_subset h'.accepted_subset
  rejected_subset := List.Subset.trans h.rejected_subset h'.rejected_subset
  refused := by
    intro e' he' reason hr
    rcases List.mem_cons.mp he' with rfl | he'
    · exact h'.rejected_subset (h.refused e' (by simp) reason hr)
    · exact h'.refused e' he' reason (by rwa [route_congr hshares])
  stored := by
    intro r hr
    rcases h'.stored r hr with hr | hacc
    · exact (h.stored r hr).imp id (fun hacc => h'.accepted_subset hacc)
    · exact Or.inr hacc

theorem fileAt_ok {rep' : Report} {db' : SqliteDb}
    (hroute : route P cfg caller now db.toTables e = .ok accountId)
    (h : fileAt P accountId e rep db = (.ok rep', db')) :
    db' = (putEnvelope P accountId e db).2 ∧ Reports P cfg caller now [e] rep rep' db db' := by
  by_cases hfile : Fileable db accountId e
  · obtain ⟨rep'', hone, hreps⟩ := fileAt_of_fileable rep hroute hfile
    obtain ⟨hrep, rfl⟩ := Prod.mk.inj (hone.symm.trans h)
    obtain rfl := Except.ok.inj hrep
    exact ⟨rfl, hreps⟩
  · simp [fileAt, putEnvelope_of_not_fileable hfile] at h

theorem filed_cons_of_error {t : Tables} {rest : List Envelope} {reason : RejectReason}
    (h : route P cfg caller now t e = .error reason) :
    filed P cfg caller now t (e :: rest) = filed P cfg caller now t rest := by
  simp [filed, h, Except.toOption]

theorem filed_cons_of_ok {t : Tables} {rest : List Envelope}
    (h : route P cfg caller now t e = .ok accountId) :
    filed P cfg caller now t (e :: rest) = (accountId, e) :: filed P cfg caller now t rest := by
  simp [filed, h, Except.toOption]

/-- A batch that is filed to its end has written its routed envelopes in turn. -/
theorem fileAll_ok {rep' : Report} {db' : SqliteDb}
    (h : fileAll P cfg caller now body rep db = (.ok rep', db')) :
    db' = puts P db (filed P cfg caller now db.toTables body) ∧
      Reports P cfg caller now body rep rep' db db' := by
  induction body generalizing rep db with
  | nil =>
    obtain ⟨hrep, rfl⟩ := Prod.mk.inj h
    obtain rfl := Except.ok.inj hrep
    exact ⟨rfl, List.Subset.refl _, List.Subset.refl _, by simp, fun r hr => Or.inl hr⟩
  | cons e rest ih =>
    unfold fileAll fileOne at h
    cases hroute : route P cfg caller now db.toTables e with
    | error reason =>
      simp only [hroute] at h
      obtain ⟨hputs, hreps⟩ := ih h
      rw [filed_cons_of_error hroute]
      exact ⟨hputs, (reports_of_refused hroute).cons rfl hreps⟩
    | ok accountId =>
      simp only [hroute] at h
      rcases hone : fileAt P accountId e rep db with ⟨err | rep₁, db₁⟩
      · simp [hone] at h
      · simp only [hone] at h
        obtain ⟨rfl, hreps₁⟩ := fileAt_ok hroute hone
        have hshares : (putEnvelope P accountId e db).2.shares = db.shares := putEnvelope_shares
        obtain ⟨hputs, hreps⟩ := ih h
        rw [filed_cons_of_ok hroute, puts_cons, ← filed_congr hshares]
        exact ⟨hputs, hreps₁.cons hshares hreps⟩

theorem fileAll_isOk (rep : Report)
    (h : ∀ w ∈ filed P cfg caller now db.toTables body, db.accountById w.1 ≠ none) :
    ∃ rep' db', fileAll P cfg caller now body rep db = (.ok rep', db') := by
  induction body generalizing rep db with
  | nil => exact ⟨rep, db, rfl⟩
  | cons e rest ih =>
    unfold fileAll fileOne
    cases hroute : route P cfg caller now db.toTables e with
    | error reason =>
      rw [filed_cons_of_error hroute] at h
      exact ih (rep.reject e reason) h
    | ok accountId =>
      rw [filed_cons_of_ok hroute] at h
      have hfile : Fileable db accountId e :=
        fileable_of_account (h (accountId, e) List.mem_cons_self)
      obtain ⟨rep₁, hone, _⟩ := fileAt_of_fileable rep hroute hfile
      have hshares : (putEnvelope P accountId e db).2.shares = db.shares := putEnvelope_shares
      simp only [hone]
      apply ih
      intro w hw
      rw [filed_congr hshares] at hw
      rw [Tables.accountById, putEnvelope_accounts]
      exact h w (List.mem_cons_of_mem _ hw)

end RemotierSync.Sync
