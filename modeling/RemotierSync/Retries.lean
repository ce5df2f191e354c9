import RemotierSync.Rejections
import RemotierSync.Library.Faults

/-!
# Pushing a batch again

A push is one store call after another, each committed by itself, so a push whose store fails has
filed some first envelopes of its batch. What an envelope has once been filed against stays at
least as new as the envelope, so filing it again is stale and changes no row. Pushing the batch
again therefore leaves the rows that one complete push leaves, under other numbers.
-/

namespace RemotierSync.Sync

open SqliteStore Traversal

/-- How a store call fails: it is rolled back, or it is committed and its answer is lost. -/
inductive Failure where
  | rolledBack
  | unanswered
deriving DecidableEq

variable (P : Platform) (cfg : Config) (caller : Caller) (now : ℤ)

def failing (f : Failure) (c : Call) (db : SqliteDb) : Except Error c.Ret × SqliteDb :=
  match f with
  | .rolledBack => (.error .db, db)
  | .unanswered => (.error .db, (exec P now c db).2)

/-- The state left by a push whose store calls fail where the plan says so. -/
def interrupted (plan : ℕ → Option Failure) (body : List Envelope) (db : SqliteDb) : SqliteDb :=
  (Program.runFrom (exec P now) (failing P now) plan 0 (push cfg caller now body) db).2

/-- The records are the same in every field but `seq`, and shares and accounts are the same. -/
structure SameVersions (db db' : SqliteDb) : Prop where
  versions : ∀ k, (db.records.find? k).map RecordEntry.version =
    (db'.records.find? k).map RecordEntry.version
  shares : db.shares = db'.shares
  accounts : db.accounts = db'.accounts

/-- A row at least as new as the envelope stands under its key. -/
def Settled (accountId : String) (e : Envelope) (db : SqliteDb) : Prop :=
  ¬ Supersedes (db.records.find? (recordKey accountId e)) e.clock

def AllSettled (body : List Envelope) (db : SqliteDb) : Prop :=
  ∀ e ∈ body, ∀ accountId, route P cfg caller now db.toTables e = .ok accountId →
    Settled accountId e db

variable {P cfg caller now} {body : List Envelope} {e e' : Envelope} {accountId accountId' : String}
  {db db' : SqliteDb} {o : Outcome} {os : List Outcome}

/-! ## Filing the same envelope again -/

theorem settled_putEnvelope_self (h : Fileable db accountId e) :
    Settled accountId e (putEnvelope P accountId e db).2 := by
  unfold Settled
  rw [find?_putEnvelope h]
  by_cases hs : Supersedes (db.records.find? (recordKey accountId e)) e.clock
  · rw [if_pos ⟨rfl, hs⟩]
    intro hlt
    exact absurd (hlt _ rfl) (lt_irrefl _)
  · rwa [if_neg (fun hc => hs hc.2)]

theorem settled_putEnvelope (h : Settled accountId e db) :
    Settled accountId e (putEnvelope P accountId' e' db).2 := by
  by_cases hfile : Fileable db accountId' e'
  · unfold Settled at h ⊢
    rw [find?_putEnvelope hfile]
    split_ifs with hc
    · intro hlt
      exact h (hc.2.mono (hlt _ rfl).le)
    · exact h
  · rwa [putEnvelope_of_not_fileable hfile]

theorem putEnvelope_of_settled (h : Settled accountId e db) :
    putEnvelope P accountId e db = (.ok none, { db with next := db.next + 1 }) := by
  have hfile : Fileable db accountId e := by
    rintro ⟨hnone, _⟩
    apply h
    rw [hnone]
    intro r hr
    cases hr
  have hfst : (putEnvelope P accountId e db).1 = .ok none := by
    rw [putEnvelope_fst hfile, if_neg h]
  exact Prod.ext hfst (putEnvelope_stale hfst)

theorem outcome_snd : (outcome P cfg caller now e db).2 = db ∨
    ∃ accountId, (outcome P cfg caller now e db).2 = (putEnvelope P accountId e db).2 := by
  cases hroute : route P cfg caller now db.toTables e with
  | error reason => exact Or.inl (by rw [outcome_of_error hroute])
  | ok accountId =>
    by_cases hfile : Fileable db accountId e
    · exact Or.inr ⟨accountId, by rw [outcome_of_fileable hroute hfile]⟩
    · exact Or.inl (by rw [outcome_of_not_fileable hroute hfile])

theorem outcomes_invariant {I : SqliteDb → Prop}
    (hput : ∀ accountId e db, I db → I (putEnvelope P accountId e db).2) (h : I db) :
    I (outcomes P cfg caller now body db).2 := by
  apply visitAll_invariant _ body h
  intro e s hs
  rcases (outcome_snd : (outcome P cfg caller now e s).2 = s ∨ _) with hsame | ⟨accountId, hfiled⟩
  · rwa [hsame]
  · rw [hfiled]
    exact hput accountId e s hs

theorem shares_of_outcomes (h : outcomes P cfg caller now body db = (.ok os, db')) :
    db'.shares = db.shares := by
  have hsame : (outcomes P cfg caller now body db).2.shares = db.shares :=
    outcomes_invariant (I := fun s => s.shares = db.shares)
      (fun _ _ _ hs => putEnvelope_shares.trans hs) rfl
  rwa [h] at hsame

theorem settled_of_outcome (h : outcome P cfg caller now e db = (.ok o, db'))
    (hroute : route P cfg caller now db.toTables e = .ok accountId) : Settled accountId e db' := by
  by_cases hfile : Fileable db accountId e
  · rw [outcome_of_fileable hroute hfile] at h
    rw [← (Prod.mk.inj h).2]
    exact settled_putEnvelope_self hfile
  · rw [outcome_of_not_fileable hroute hfile] at h
    cases h

theorem allSettled_of_outcomes (h : outcomes P cfg caller now body db = (.ok os, db')) :
    AllSettled P cfg caller now body db' := by
  induction body generalizing db os with
  | nil =>
    intro e he
    exact absurd he List.not_mem_nil
  | cons e₁ body ih =>
    obtain ⟨o, os', db₁, ho, hrest, rfl⟩ := visits_cons.mp h
    intro e he accountId hroute
    rcases List.mem_cons.mp he with rfl | he
    · rw [route_congr (shares_of_outcomes h)] at hroute
      have hsettled : Settled accountId e (outcomes P cfg caller now body db₁).2 :=
        outcomes_invariant (fun _ _ _ hs => settled_putEnvelope hs) (settled_of_outcome ho hroute)
      rwa [show outcomes P cfg caller now body db₁ = (.ok os', db') from hrest] at hsettled
    · exact ih hrest e he accountId hroute

/-! ## A settled batch -/

theorem outcome_of_settled
    (h : ∀ accountId, route P cfg caller now db.toTables e = .ok accountId →
      Settled accountId e db) :
    ∃ reason db', outcome P cfg caller now e db = (.ok (.error reason), db') ∧
      db'.toTables = db.toTables := by
  cases hroute : route P cfg caller now db.toTables e with
  | error reason => exact ⟨reason, db, outcome_of_error hroute, rfl⟩
  | ok accountId =>
    have hput := putEnvelope_of_settled (P := P) (h accountId hroute)
    exact ⟨.stale, { db with next := db.next + 1 }, by simp only [outcome, hroute, hput], rfl⟩

/-- A settled batch is filed to its end, nothing of it is accepted, and no row changes. -/
theorem outcomes_of_allSettled (h : AllSettled P cfg caller now body db) :
    ∃ os db', outcomes P cfg caller now body db = (.ok os, db') ∧ db'.toTables = db.toTables ∧
      os.filterMap Except.toOption = [] := by
  induction body generalizing db with
  | nil => exact ⟨[], db, rfl, rfl, rfl⟩
  | cons e body ih =>
    obtain ⟨reason, db₁, ho, hsame⟩ := outcome_of_settled (h e List.mem_cons_self)
    have hrest : AllSettled P cfg caller now body db₁ := by
      intro e' he' accountId hroute
      rw [hsame] at hroute
      unfold Settled
      rw [hsame]
      exact h e' (List.mem_cons_of_mem e he') accountId hroute
    obtain ⟨os, db', hos, hsame', hnone⟩ := ih hrest
    exact ⟨.error reason :: os, db', visits_cons.mpr ⟨_, _, _, ho, hos, rfl⟩,
      hsame'.trans hsame, hnone⟩

/-! ## The same batch from the same versions -/

namespace SameVersions

theorem symm (h : SameVersions db db') : SameVersions db' db where
  versions k := (h.versions k).symm
  shares := h.shares.symm
  accounts := h.accounts.symm

theorem of_toTables (h : db.toTables = db'.toTables) : SameVersions db db' where
  versions k := by rw [h]
  shares := by rw [h]
  accounts := by rw [h]

variable (h : SameVersions db db')
include h

theorem fileable_iff : Fileable db accountId e ↔ Fileable db' accountId e := by
  have hnone : db.records.find? (recordKey accountId e) = none ↔
      db'.records.find? (recordKey accountId e) = none := by
    rw [← Option.map_eq_none_iff (f := RecordEntry.version), h.versions, Option.map_eq_none_iff]
  unfold Fileable
  rw [hnone, Tables.accountById, h.accounts, Tables.accountById]

theorem supersedes_iff {k : String × String × String} {c : Clock} :
    Supersedes (db.records.find? k) c ↔ Supersedes (db'.records.find? k) c := by
  have hversions := h.versions k
  cases hr : db.records.find? k with
  | none =>
    rw [hr, Option.map_none, eq_comm, Option.map_eq_none_iff] at hversions
    rw [hversions]
  | some r =>
    rw [hr, Option.map_some, eq_comm] at hversions
    obtain ⟨r', hr', hversion⟩ := Option.map_eq_some_iff.mp hversions
    have hclock : r'.clock = r.clock := congrArg (fun r => r.clock) hversion
    rw [hr']
    simp [Supersedes, hclock]

theorem putEnvelope (hfile : Fileable db accountId e) :
    SameVersions (putEnvelope P accountId e db).2 (putEnvelope P accountId e db').2 where
  versions k := by
    rw [find?_putEnvelope hfile, find?_putEnvelope (h.fileable_iff.mp hfile)]
    simp only [h.supersedes_iff]
    split_ifs
    · rfl
    · exact h.versions k
  shares := by rw [putEnvelope_shares, putEnvelope_shares, h.shares]
  accounts := by rw [putEnvelope_accounts, putEnvelope_accounts, h.accounts]

theorem outcome {db₁ : SqliteDb} (ho : outcome P cfg caller now e db = (.ok o, db₁)) :
    ∃ o' db₁', outcome P cfg caller now e db' = (.ok o', db₁') ∧ SameVersions db₁ db₁' := by
  cases hroute : route P cfg caller now db.toTables e with
  | error reason =>
    have hroute' := (route_congr h.shares.symm).trans hroute
    rw [outcome_of_error hroute] at ho
    obtain ⟨_, rfl⟩ := Prod.mk.inj ho
    exact ⟨.error reason, db', outcome_of_error hroute', h⟩
  | ok accountId =>
    have hroute' := (route_congr h.shares.symm).trans hroute
    by_cases hfile : Fileable db accountId e
    · rw [outcome_of_fileable hroute hfile] at ho
      obtain ⟨_, rfl⟩ := Prod.mk.inj ho
      exact ⟨_, _, outcome_of_fileable hroute' (h.fileable_iff.mp hfile), h.putEnvelope hfile⟩
    · rw [outcome_of_not_fileable hroute hfile] at ho
      cases ho

omit h in
theorem outcomes {db₁ : SqliteDb} (h : SameVersions db db')
    (hos : outcomes P cfg caller now body db = (.ok os, db₁)) :
    ∃ os' db₁', outcomes P cfg caller now body db' = (.ok os', db₁') ∧ SameVersions db₁ db₁' := by
  induction body generalizing db db' os with
  | nil =>
    obtain ⟨_, rfl⟩ := visits_nil.mp hos
    exact ⟨[], db', rfl, h⟩
  | cons e body ih =>
    obtain ⟨o, os₂, db₂, ho, hrest, rfl⟩ := visits_cons.mp hos
    obtain ⟨o', db₂', ho', h'⟩ := h.outcome ho
    obtain ⟨os', db₁', hrest', h''⟩ := ih h' hrest
    exact ⟨o' :: os', db₁', visits_cons.mpr ⟨o', os', db₂', ho', hrest', rfl⟩, h''⟩

end SameVersions

/-! ## What an interrupted push leaves -/

theorem exec_of_read {c : Call} (h : writes c = none) (db : SqliteDb) :
    (exec P now c db).2 = db := by
  cases c <;> first | rfl | simp [writes] at h

theorem allButLast_store {K : Call → Prop} {st : PushState} :
    Program.AllButLast K (store accountId e st) := by
  refine Or.inl ?_
  intro row
  cases row <;> trivial

/-- A turn of the loop asks first and writes last. -/
theorem allButLast_pushOne (e : Envelope) (st : PushState) :
    Program.AllButLast (fun c => writes c = none) (pushOne cfg caller now e st) := by
  unfold pushOne
  cases refuse cfg e now with
  | some reason => trivial
  | none =>
    cases e.keyRef with
    | personal => exact allButLast_store
    | group groupId =>
      refine Program.allButLast_bind (issues_askOnce ((issues_ask _ _).mpr rfl)) ?_
      rintro ⟨allowed, writable⟩
      cases allowed with
      | false => trivial
      | true =>
        refine Program.allButLast_bind (issues_askOnce ((issues_ask _ _).mpr rfl)) ?_
        exact fun _ => allButLast_store

/-- Some first envelopes of the batch have been filed. -/
def FiledPrefix (P : Platform) (cfg : Config) (caller : Caller) (now : ℤ) (body : List Envelope)
    (db db' : SqliteDb) : Prop :=
  ∃ before after os, body = before ++ after ∧ outcomes P cfg caller now before db = (.ok os, db')

theorem FiledPrefix.step {before after : List Envelope} {os : List Outcome}
    (h : outcomes P cfg caller now before db = (.ok os, db')) :
    FiledPrefix P cfg caller now (before ++ e :: after) db (outcome P cfg caller now e db').2 := by
  rcases ho : outcome P cfg caller now e db' with ⟨err | o, db₁⟩
  · have hsame : db₁ = db' := by
      cases hroute : route P cfg caller now db'.toTables e with
      | error reason =>
        rw [outcome_of_error hroute] at ho
        cases ho
      | ok accountId =>
        by_cases hfile : Fileable db' accountId e
        · rw [outcome_of_fileable hroute hfile] at ho
          cases ho
        · rw [outcome_of_not_fileable hroute hfile] at ho
          exact (Prod.mk.inj ho).2.symm
    rw [hsame]
    exact ⟨before, e :: after, os, rfl, h⟩
  · exact ⟨before ++ [e], after, os ++ [o], by simp, visits_split.mpr
      ⟨os, o, [], db', db₁, h, ho, visits_nil.mpr ⟨rfl, rfl⟩, rfl⟩⟩

theorem along_pushAll {before after : List Envelope} {os : List Outcome} {st : PushState}
    (h : outcomes P cfg caller now before db = (.ok os, db'))
    (hst : Coherent P caller db'.toTables st) :
    Program.Along (exec P now) (FiledPrefix P cfg caller now (before ++ after) db)
      (pushAll cfg caller now after st) db' := by
  induction after generalizing before os st db' with
  | nil => exact ⟨before, [], os, rfl, h⟩
  | cons e after ih =>
    obtain ⟨hsnd, hfst⟩ : Matches P caller _ _ := run_pushOne cfg now e hst
    rw [fileOne_eq] at hsnd hfst
    have hstep : FiledPrefix P cfg caller now (before ++ e :: after) db
        (outcome P cfg caller now e db').2 := FiledPrefix.step h
    unfold pushAll
    apply Program.along_bind
    · apply Program.along_of_allButLast (fun c s hc => exec_of_read hc s)
        (allButLast_pushOne e st) ⟨before, e :: after, os, rfl, h⟩
      rw [hsnd]
      rcases ho : outcome P cfg caller now e db' with ⟨err | o, db₁⟩ <;> rw [ho] at hstep <;>
        exact hstep
    · intro st' db₁ hrun
      rw [hrun] at hsnd hfst
      rcases ho : outcome P cfg caller now e db' with ⟨err | o, db₂⟩ <;> simp only [ho] at hsnd hfst
      obtain rfl : db₁ = db₂ := hsnd
      have hsnoc : outcomes P cfg caller now (before ++ [e]) db = (.ok (os ++ [o]), db₁) :=
        visits_split.mpr ⟨os, o, [], db', db₁, h, ho, visits_nil.mpr ⟨rfl, rfl⟩, rfl⟩
      have hrest := ih hsnoc hfst.2
      rwa [List.append_assoc] at hrest

/-- However its store calls fail, a push leaves what filing some first envelopes leaves. -/
theorem filedPrefix_interrupted (plan : ℕ → Option Failure) (body : List Envelope)
    (db : SqliteDb) : FiledPrefix P cfg caller now body db
      (interrupted P cfg caller now plan body db) := by
  have hnil : outcomes P cfg caller now [] db = (.ok [], db) := rfl
  have hall : Program.Along (exec P now) (FiledPrefix P cfg caller now ([] ++ body) db)
      (pushAll cfg caller now body .initial) db := along_pushAll hnil coherent_initial
  apply Program.runFrom_of_along
  · intro f c s
    cases f with
    | rolledBack => exact ⟨.db, Or.inl rfl⟩
    | unanswered => exact ⟨.db, Or.inr rfl⟩
  · apply Program.along_bind hall
    intro st db' hrun
    have hend : FiledPrefix P cfg caller now body db db' := by
      obtain ⟨hsnd, hfst⟩ : Matches P caller _ _ := matches_pushAll cfg now body db
      rw [fileAll_eq] at hsnd hfst
      rw [hrun] at hsnd hfst
      rcases hos : outcomes P cfg caller now body db with ⟨err | os, db₁⟩ <;>
        simp only [hos] at hsnd hfst
      obtain rfl : db' = db₁ := hsnd
      exact ⟨body, [], os, by simp, hos⟩
    exact ⟨hend, hend, fun _ _ => hend⟩

/-! ## Pushing again -/

theorem outcomes_of_filedPrefix {db₁ db₂ : SqliteDb}
    (h : outcomes P cfg caller now body db = (.ok os, db₁))
    (hfirst : FiledPrefix P cfg caller now body db db₂) :
    ∃ os' db', outcomes P cfg caller now body db₂ = (.ok os', db') ∧ SameVersions db' db₁ := by
  obtain ⟨before, after, os₂, rfl, hbefore⟩ := hfirst
  obtain ⟨os₂', os₃, db₂', hbefore', hafter, rfl⟩ := visits_append.mp h
  obtain rfl : db₂ = db₂' := (Prod.mk.inj (hbefore.symm.trans hbefore')).2
  obtain ⟨os₄, db₃, hagain, hsame, _⟩ := outcomes_of_allSettled (allSettled_of_outcomes hbefore)
  obtain ⟨os₅, db', hrest, hversions⟩ :=
    (SameVersions.of_toTables hsame.symm).outcomes hafter
  exact ⟨os₄ ++ os₅, db', outcomes_append hagain hrest, hversions.symm⟩

/-- A batch that has been pushed up to some call is pushed again whole and leaves the versions of
one complete push, and after a complete push nothing of it is accepted and no row changes. -/
theorem push_retried (h : ∃ resp, answered P cfg caller now body db resp) :
    (∀ plan, ∃ resp,
      answered P cfg caller now body (interrupted P cfg caller now plan body db) resp ∧
        SameVersions
          (afterPush P cfg caller now body (interrupted P cfg caller now plan body db))
          (afterPush P cfg caller now body db)) ∧
      ∃ resp, answered P cfg caller now body (afterPush P cfg caller now body db) resp ∧
        resp.accepted = [] ∧
        (afterPush P cfg caller now body (afterPush P cfg caller now body db)).toTables =
          (afterPush P cfg caller now body db).toTables := by
  obtain ⟨resp, hresp⟩ := h
  obtain ⟨os, db₁, hos, _⟩ := outcomes_of_answered hresp
  rw [afterPush_of_outcomes hos]
  refine ⟨?_, ?_⟩
  · intro plan
    obtain ⟨os', db', hos', hversions⟩ :=
      outcomes_of_filedPrefix hos (filedPrefix_interrupted plan body db)
    rw [afterPush_of_outcomes hos']
    exact ⟨_, congrArg Prod.fst (run_push_of_outcomes hos'), hversions⟩
  · obtain ⟨os', db', hos', hsame, hnone⟩ := outcomes_of_allSettled (allSettled_of_outcomes hos)
    rw [afterPush_of_outcomes hos']
    refine ⟨_, congrArg Prod.fst (run_push_of_outcomes hos'), ?_, hsame⟩
    rw [← List.map_eq_nil_iff (f := Accepted.seq), map_seq_reportOn (Visits.length_eq hos')]
    exact hnone

section Runs

open Reference

/-- Two versions of a record under one clock and then another record; the third store call is
committed and its answer lost. -/
def twoVersions : List Envelope := [host "h" .personal none 5,
  { host "h" .personal none 5 with sort := 1 }, host "k" .personal none 5]

def thirdCallLost (n : ℕ) : Option Failure := if n = 2 then some .unanswered else none

theorem twoVersions_retried :
    SameVersions
      (afterPush .reference config ⟨"ada"⟩ 0 twoVersions
        (interrupted .reference config ⟨"ada"⟩ 0 thirdCallLost twoVersions adaOnly))
      (afterPush .reference config ⟨"ada"⟩ 0 twoVersions adaOnly) := by
  have hresp : answered .reference config ⟨"ada"⟩ 0 twoVersions adaOnly
      ⟨[⟨"h", "host", 1⟩, ⟨"k", "host", 3⟩], [⟨"h", "host", .stale⟩], 3⟩ := by
    decide +kernel
  obtain ⟨_, _, hversions⟩ := (push_retried ⟨_, hresp⟩).1 thirdCallLost
  exact hversions

end Runs

end RemotierSync.Sync
