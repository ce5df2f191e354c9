import RemotierSync.Postgres
import RemotierSync.Server

/-!
# The handlers on either backend

A backend is its database and what a store call does to it. The handlers do not know which one
they run on: a push hands every envelope that it routes to `put_envelope` and reports the answer,
and what each of these steps preserves the whole batch preserves (`pushAll_induction`).
-/

namespace RemotierSync

/-- A database, its tables and what a store call does to it. -/
structure Backend where
  State : Type
  tables : State → Tables
  exec : ℤ → (c : Call) → State → Except Error c.Ret × State
  migrated : State

namespace Backend

def sqlite (P : Platform) : Backend where
  State := SqliteDb
  tables := SqliteDb.toTables
  exec := SqliteStore.exec P
  migrated := .migrated

def postgres (P : Platform) (textGt : String → String → Bool) : Backend where
  State := PostgresDb
  tables := PostgresDb.toTables
  exec := PostgresStore.exec P textGt
  migrated := .migrated

variable (B : Backend) (P : Platform) (cfg : Config)

def serve (s : B.State) (a : Arrival) : B.State :=
  (Program.run (B.exec a.now) (Server.act P cfg a) s).2

def reached (arrivals : List Arrival) : B.State :=
  History.run (B.serve P cfg) B.migrated arrivals

def push (s : B.State) (now : ℤ) (caller : Caller) (body : List Envelope) :
    Except Error PushResponse × B.State :=
  Program.run (B.exec now) (Sync.push cfg caller now body) s

/-- A backend whose statements answer about groups from its shares and draw the numbers of its rows
one after the other. A call that is answered has run its statement. -/
structure Lawful (execute : ℤ → (c : Call) → B.State → Except Error c.Ret × B.State)
    (drawn : B.State → ℤ) : Prop where
  answered : ∀ now c s r s', B.exec now c s = (.ok r, s') → execute now c s = (.ok r, s')
  groups : ∀ now, Sync.AnswersGroups P (execute now) B.tables
  shares : ∀ now accountId e s,
    (B.tables (execute now (.putEnvelope accountId e) s).2).shares = (B.tables s).shares
  grows : ∀ now c s, drawn s ≤ drawn (B.exec now c s).2
  fresh : ∀ now accountId e s seq s', execute now (.putEnvelope accountId e) s = (.ok seq, s') →
    drawn s ≤ drawn s' ∧ ∀ n ∈ seq, drawn s < n ∧ n ≤ drawn s'

variable {B} {P} {cfg} {execute : ℤ → (c : Call) → B.State → Except Error c.Ret × B.State}
  {drawn : B.State → ℤ} {s s' : B.State} {now : ℤ} {caller : Caller}
  {body : List Envelope} {e : Envelope} {resp : PushResponse}

/-! ## The loop -/

section Loop

open Sync

variable {st st' : PushState}

/-- An envelope is refused and nothing happens, or it is stored where it is routed and the store's
answer is reported. -/
inductive Handled (B : Backend)
    (execute : ℤ → (c : Call) → B.State → Except Error c.Ret × B.State) (P : Platform)
    (cfg : Config) (caller : Caller) (now : ℤ) (e : Envelope) (s : B.State) (rep : Report) :
    Report → B.State → Prop where
  | refused {reason : RejectReason}
      (h : route P cfg caller now (B.tables s) e = .error reason) :
      Handled B execute P cfg caller now e s rep (rep.reject e reason) s
  | accepted {accountId : String} {seq : ℤ} {s' : B.State}
      (h : route P cfg caller now (B.tables s) e = .ok accountId)
      (hput : execute now (.putEnvelope accountId e) s = (.ok (some seq), s')) :
      Handled B execute P cfg caller now e s rep (rep.accept e seq) s'
  | stale {accountId : String} {s' : B.State}
      (h : route P cfg caller now (B.tables s) e = .ok accountId)
      (hput : execute now (.putEnvelope accountId e) s = (.ok none, s')) :
      Handled B execute P cfg caller now e s rep (rep.reject e .stale) s'

theorem handled_of_pushOne (hB : B.Lawful P execute drawn)
    (hst : Coherent P caller (B.tables s) st)
    (h : Program.run (execute now) (pushOne cfg caller now e st) s = (.ok st', s')) :
    Handled B execute P cfg caller now e s st.report st'.report s' ∧
      Coherent P caller (B.tables s') st' := by
  cases hroute : route P cfg caller now (B.tables s) e with
  | error reason =>
    obtain ⟨st'', hreport, hst'', hrun⟩ := run_pushOne_of_error (hB.groups now) hst hroute
    obtain ⟨hok, rfl⟩ := Prod.mk.inj (hrun.symm.trans h)
    obtain rfl := Except.ok.inj hok
    rw [hreport]
    exact ⟨.refused hroute, hst''⟩
  | ok accountId =>
    obtain ⟨st'', hreport, hst'', hrun⟩ := run_pushOne_of_ok (hB.groups now) hst hroute
    have hshares := hB.shares now accountId e s
    rw [hrun, Sync.store, Program.run_bind, run_ask] at h
    rcases hput : execute now (.putEnvelope accountId e) s with ⟨err | _ | seq, s''⟩
    · rw [hput] at h
      cases (Prod.mk.inj h).1
    · rw [hput] at h hshares
      obtain ⟨hok, rfl⟩ := Prod.mk.inj h
      obtain rfl := Except.ok.inj hok
      rw [← hreport]
      exact ⟨.stale hroute hput, coherent_congr hshares hst''⟩
    · rw [hput] at h hshares
      obtain ⟨hok, rfl⟩ := Prod.mk.inj h
      obtain rfl := Except.ok.inj hok
      rw [← hreport]
      exact ⟨.accepted hroute hput, coherent_congr hshares hst''⟩

theorem Handled.refused_or_put {rep rep' : Report}
    (h : Handled B execute P cfg caller now e s rep rep' s') :
    (∃ reason, route P cfg caller now (B.tables s) e = .error reason ∧ s' = s) ∨
      ∃ accountId answer, route P cfg caller now (B.tables s) e = .ok accountId ∧
        execute now (.putEnvelope accountId e) s = (.ok answer, s') := by
  cases h with
  | refused h => exact Or.inl ⟨_, h, rfl⟩
  | accepted h hput => exact Or.inr ⟨_, _, h, hput⟩
  | stale h hput => exact Or.inr ⟨_, _, h, hput⟩

theorem Handled.shares (hB : B.Lawful P execute drawn) {rep rep' : Report}
    (h : Handled B execute P cfg caller now e s rep rep' s') :
    (B.tables s').shares = (B.tables s).shares := by
  rcases h.refused_or_put with ⟨_, _, rfl⟩ | ⟨accountId, _, _, hput⟩
  · rfl
  · have hshares := hB.shares now accountId e s
    rwa [hput] at hshares

theorem pushAll_induction (hB : B.Lawful P execute drawn)
    {I : List Envelope → Report → B.State → Prop}
    (hstep : ∀ done e rep rep' s s', I done rep s →
      Handled B execute P cfg caller now e s rep rep' s' → I (done ++ [e]) rep' s')
    {done : List Envelope}
    (hst : Coherent P caller (B.tables s) st) (hI : I done st.report s)
    (h : Program.run (execute now) (pushAll cfg caller now body st) s = (.ok st', s')) :
    I (done ++ body) st'.report s' := by
  induction body generalizing st s done with
  | nil =>
    obtain ⟨hok, rfl⟩ := Prod.mk.inj h
    obtain rfl := Except.ok.inj hok
    rwa [List.append_nil]
  | cons e rest ih =>
    rw [pushAll, Program.run_bind] at h
    rcases hone : Program.run (execute now) (pushOne cfg caller now e st) s with ⟨err | st'', s''⟩
    · rw [hone] at h
      cases (Prod.mk.inj h).1
    · rw [hone] at h
      obtain ⟨hhandled, hst''⟩ := handled_of_pushOne hB hst hone
      have hrest := ih hst'' (hstep done e _ _ s s'' hI hhandled) h
      rwa [List.append_assoc] at hrest

/-- What holds of nothing and is preserved by every envelope holds of a batch that is pushed. -/
theorem loop_induction (hB : B.Lawful P execute drawn)
    {I : List Envelope → Report → B.State → Prop}
    (hstep : ∀ done e rep rep' s s', I done rep s →
      Handled B execute P cfg caller now e s rep rep' s' → I (done ++ [e]) rep' s')
    (hI : I [] ⟨[], []⟩ s)
    (h : Program.run (B.exec now) (pushAll cfg caller now body .initial) s = (.ok st', s')) :
    I body st'.report s' :=
  pushAll_induction hB hstep (coherent_initial (P := P)) hI
    (Program.run_of_answered (hB.answered now) h)

theorem exists_loop_of_push (h : (B.push cfg s now caller body).1 = .ok resp) :
    ∃ st s', Program.run (B.exec now) (pushAll cfg caller now body .initial) s = (.ok st, s') ∧
      resp.accepted = st.report.accepted ∧ resp.rejected = st.report.rejected ∧
      (B.exec now (.maxSeq caller.accountId) s').1 = .ok resp.cursor ∧
      (B.push cfg s now caller body).2 = (B.exec now (.maxSeq caller.accountId) s').2 := by
  unfold push Sync.push at h ⊢
  rcases hloop : Program.run (B.exec now) (pushAll cfg caller now body .initial) s with
    ⟨err | st, s'⟩
  · rw [Program.run_bind_error _ hloop] at h
    cases h
  · rw [Program.run_bind_ok _ hloop, Program.run_bind, run_ask] at h ⊢
    rcases hmark : B.exec now (.maxSeq caller.accountId) s' with ⟨err | cursor, s''⟩
    · rw [hmark] at h
      cases h
    · rw [hmark] at h
      obtain rfl := Except.ok.inj h
      exact ⟨st, s', rfl, rfl, rfl, by rw [hmark], by rw [hmark]; rfl⟩

end Loop

end Backend
end RemotierSync
