import RemotierSync.Writers
import RemotierSync.Reference

/-!
# Writers that overtake a cursor

As long as no row of the client's account becomes visible at or before the client's cursor, the
client is caught up with the account, in whatever order the statements commit. A row that does is
passed over, since a pull asks for the numbers behind the cursor only.
-/

namespace RemotierSync.Writers

open PostgresStore ChangeLog Client Reader

variable (P : Platform) (textGt : String → String → Bool) (cfg : Config) (caller : Caller)

/-- Whenever no statement is in flight and a pull answers that nothing is left, the client has
received the current version of every row of its account. -/
def QuietPullsComplete (t : Tables) (events : List Event) : Prop :=
  History.Always (step P textGt cfg caller) (start t)
    (fun s ev => ∀ now resp, ev = .pull now → s.inFlight = [] →
      answer P textGt cfg caller now s = .ok resp → resp.more = false →
      ∀ r ∈ s.db.records.rows, r.accountId = caller.accountId →
        Received P (step P textGt cfg caller s ev).toClient r)
    events

/-- A commit puts no row of the account at or before the cursor. -/
def StaysAhead (s : Writers) (ev : Event) : Prop :=
  ∀ st ∈ s.committing ev, st.accountId = caller.accountId → Stores P textGt st s.db →
    s.cursor < st.seq

instance (s : Writers) (ev : Event) : Decidable (StaysAhead P textGt caller s ev) :=
  Option.decidableForallMem _

variable {P} {textGt} {cfg} {caller} {t : Tables} {s : Writers} {events : List Event}

def own (caller : Caller) (db : PostgresDb) : List RecordEntry :=
  db.records.rows.filter (fun r => r.accountId = caller.accountId)

theorem own_subset_seen (db : PostgresDb) : own caller db ⊆ seen caller db.toTables := by
  intro r hr
  obtain ⟨hmem, hown⟩ := List.mem_filter.mp hr
  exact List.mem_filter.mpr
    ⟨hmem, Tables.visible_iff.mpr (Or.inl (by simpa using hown))⟩

theorem caughtUp_step (hs : Sound s) (hc : CaughtUpWith P (own caller s.db) s.toClient) {ev : Event}
    (hev : StaysAhead P textGt caller s ev) :
    CaughtUpWith P (own caller (step P textGt cfg caller s ev).db)
      (step P textGt cfg caller s ev).toClient := by
  cases ev with
  | draw accountId e =>
    by_cases hfree : (Call.putEnvelope accountId e).NulFree P
    · rwa [step_draw_of_nulFree hfree]
    · rwa [step_draw_of_not_nulFree hfree]
  | commit i =>
    cases h : s.inFlight[i]? with
    | none => rwa [step_commit_of_none h]
    | some st =>
      rw [step_commit_of_some h]
      apply hc.of_write
      intro r hr hle
      obtain ⟨hmem, hown⟩ := List.mem_filter.mp hr
      rcases mem_commitPut hmem with hmem | ⟨rfl, hstores⟩
      · exact List.mem_filter.mpr ⟨hmem, hown⟩
      · have hlt := hev st h (of_decide_eq_true hown) hstores
        exact absurd hle (not_le.mpr hlt)
  | pull now =>
    cases ha : s.toReader.answer (exec P textGt now) cfg caller with
    | error err => rwa [step, pull_of_error readsLog ha]
    | ok resp =>
      rw [step, pull_of_ok readsLog ha]
      exact caughtUp_accept (hs.distinct.filter _) (own_subset_seen s.db) hc
        (pageOf_answer readsLog ha)

theorem caughtUp_run
    (h : History.Always (step P textGt cfg caller) (start t) (StaysAhead P textGt caller) events) :
    Sound (History.run (step P textGt cfg caller) (start t) events) ∧
      CaughtUpWith P (own caller (History.run (step P textGt cfg caller) (start t) events).db)
        (History.run (step P textGt cfg caller) (start t) events).toClient := by
  refine History.run_induction (I := fun events =>
    Sound (History.run (step P textGt cfg caller) (start t) events) ∧
      CaughtUpWith P (own caller (History.run (step P textGt cfg caller) (start t) events).db)
        (History.run (step P textGt cfg caller) (start t) events).toClient) ?_ ?_ h
  · refine ⟨sound_start t, ?_⟩
    intro r hr
    simp [own, start] at hr
  · intro events ev ih hev
    rw [History.run_snoc]
    exact ⟨sound_step ih.1 ev, caughtUp_step ih.1 ih.2 hev⟩

/-- A client loses no row of its account if no statement puts one at or before its cursor. -/
theorem quiet_pulls_complete (P : Platform) (textGt : String → String → Bool) (cfg : Config)
    (caller : Caller) (t : Tables) (events : List Event)
    (h : History.Always (step P textGt cfg caller) (start t) (StaysAhead P textGt caller) events) :
    QuietPullsComplete P textGt cfg caller t events := by
  rintro before ev after rfl now resp rfl _ ha hmore r hr hown
  obtain ⟨_, hc⟩ := caughtUp_run (History.always_of_append h)
  rw [step, pull_of_ok readsLog ha]
  exact complete_of_drained (own_subset_seen _) hc (pageOf_answer readsLog ha) hmore r
    (List.mem_filter.mpr ⟨hr, by simpa using hown⟩)

section Runs

open Reference

def adaAlone : Tables := (Server.reached .reference config [registration "ada"]).toTables

def textAfter (a b : String) : Bool := a > b

/-- Two devices of Ada's push at the same time. The one that drew second commits first, and the
client pulls before the other commits. -/
def overtaken : List Event := [
  .draw "ada" (host "first" .personal none 5),
  .draw "ada" (host "second" .personal none 5),
  .commit 1,
  .pull 1,
  .commit 0]

def firstRow : RecordEntry :=
  Platform.reference.recordEntry "ada" (host "first" .personal none 5) 1

def afterOvertaken : Writers :=
  History.run (step .reference textAfter config ⟨"ada"⟩) (start adaAlone) overtaken

/-- Both records are stored, but another pull brings nothing. -/
theorem pull_afterOvertaken :
    afterOvertaken.inFlight = [] ∧
    answer .reference textAfter config ⟨"ada"⟩ 2 afterOvertaken = .ok ⟨[], 2, false⟩ ∧
    firstRow ∈ afterOvertaken.db.records.rows ∧
    ¬ Received .reference
      (step .reference textAfter config ⟨"ada"⟩ afterOvertaken (.pull 2)).toClient firstRow := by
  decide +kernel

theorem overtaken_row_is_lost :
    ¬ QuietPullsComplete .reference textAfter config ⟨"ada"⟩ adaAlone (overtaken ++ [.pull 2]) := by
  intro h
  obtain ⟨hquiet, hpull, hstored, hunread⟩ := pull_afterOvertaken
  exact hunread (h overtaken (.pull 2) [] rfl 2 _ rfl hquiet hpull rfl firstRow hstored rfl)

/-- The same statements commit in the same order, but the client pulls only before and after. A
third one loses to a version that drew its number earlier. -/
def undisturbed : List Event := [
  .draw "ada" (host "first" .personal none 5),
  .pull 1,
  .draw "ada" (host "second" .personal none 5),
  .draw "ada" (host "first" .personal none 4),
  .commit 1,
  .commit 0,
  .commit 0,
  .pull 2]

theorem undisturbed_rows_are_read :
    QuietPullsComplete .reference textAfter config ⟨"ada"⟩ adaAlone undisturbed :=
  quiet_pulls_complete .reference textAfter config ⟨"ada"⟩ adaAlone undisturbed
    (by decide +kernel)

end Runs

end RemotierSync.Writers
