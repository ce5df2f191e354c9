import RemotierSync.Reference
import RemotierSync.Library.Traversal

/-!
# The answer about each envelope

A push answers about the envelopes of its batch one by one: with the number of the row that was
written, or with a reason. What it reports is these answers in the order of the batch. A reason
other than `Stale` leaves the store as it was, so the envelope could as well have been left out;
`Stale` takes a number and writes no row.
-/

namespace RemotierSync.Sync

open SqliteStore Traversal

/-- The number of the row that was written, or the reason why none was. -/
abbrev Outcome := Except RejectReason ℤ

variable (P : Platform) (cfg : Config) (caller : Caller) (now : ℤ)

def outcome (e : Envelope) (db : SqliteDb) : Except Error Outcome × SqliteDb :=
  match route P cfg caller now db.toTables e with
  | .error reason => (.ok (.error reason), db)
  | .ok accountId =>
    match putEnvelope P accountId e db with
    | (.ok (some seq), db') => (.ok (.ok seq), db')
    | (.ok none, db') => (.ok (.error .stale), db')
    | (.error err, db') => (.error err, db')

/-- The answers to a batch, unless a store call fails. -/
def outcomes (body : List Envelope) (db : SqliteDb) : Except Error (List Outcome) × SqliteDb :=
  visitAll (outcome P cfg caller now) body db

def acceptedOf (p : Envelope × Outcome) : Option Accepted :=
  match p.2 with
  | .ok seq => some ⟨p.1.id, p.1.kind.asStr, seq⟩
  | .error _ => none

def rejectedOf (p : Envelope × Outcome) : Option Rejected :=
  match p.2 with
  | .ok _ => none
  | .error reason => some ⟨p.1.id, p.1.kind.asStr, reason⟩

def reportOn (body : List Envelope) (os : List Outcome) : Report where
  accepted := (body.zip os).filterMap acceptedOf
  rejected := (body.zip os).filterMap rejectedOf

def Report.append (rep rep' : Report) : Report :=
  ⟨rep.accepted ++ rep'.accepted, rep.rejected ++ rep'.rejected⟩

/-- Every envelope of the batch is in one of the two lists of a response, once and in its place,
and the numbers of the accepted ones increase. -/
structure ReportsEach (body : List Envelope) (os : List Outcome) (resp : PushResponse) : Prop where
  length_eq : os.length = body.length
  report_eq : reportOf resp = reportOn body os
  increasing : (resp.accepted.map Accepted.seq).Pairwise (· < ·)

variable {P cfg caller now} {body before after : List Envelope} {e : Envelope} {os : List Outcome}
  {o : Outcome} {db db' : SqliteDb} {rep : Report} {resp : PushResponse} {reason : RejectReason}

/-! ## One envelope -/

theorem outcome_of_error (h : route P cfg caller now db.toTables e = .error reason) :
    outcome P cfg caller now e db = (.ok (.error reason), db) := by
  simp only [outcome, h]

theorem outcome_of_fileable {accountId : String}
    (hroute : route P cfg caller now db.toTables e = .ok accountId)
    (hfile : Fileable db accountId e) :
    outcome P cfg caller now e db =
      (.ok (if Supersedes (db.records.find? (recordKey accountId e)) e.clock
          then .ok (db.next + 1) else .error .stale),
        (putEnvelope P accountId e db).2) := by
  simp only [outcome, hroute, putEnvelope_of_fileable hfile]
  split_ifs <;> rfl

theorem outcome_of_not_fileable {accountId : String}
    (hroute : route P cfg caller now db.toTables e = .ok accountId)
    (hfile : ¬ Fileable db accountId e) :
    outcome P cfg caller now e db = (.error .db, db) := by
  simp only [outcome, hroute, putEnvelope_of_not_fileable hfile]

/-- An envelope is refused and changes nothing, or is stale and takes a number, or is accepted
under the number it takes. -/
theorem outcome_cases (h : outcome P cfg caller now e db = (.ok o, db')) :
    (∃ reason, o = .error reason ∧ db' = db) ∨
      (o = .error .stale ∧ db' = { db with next := db.next + 1 }) ∨
      (o = .ok (db.next + 1) ∧ db'.next = db.next + 1) := by
  cases hroute : route P cfg caller now db.toTables e with
  | error reason =>
    rw [outcome_of_error hroute] at h
    obtain ⟨ho, rfl⟩ := Prod.mk.inj h
    exact Or.inl ⟨reason, (Except.ok.inj ho).symm, rfl⟩
  | ok accountId =>
    by_cases hfile : Fileable db accountId e
    · rw [outcome_of_fileable hroute hfile] at h
      obtain ⟨ho, rfl⟩ := Prod.mk.inj h
      obtain rfl := Except.ok.inj ho
      have hfst := putEnvelope_fst (P := P) hfile
      refine Or.inr ?_
      split_ifs at hfst ⊢ with hsup
      · exact Or.inr ⟨rfl, putEnvelope_next hfile⟩
      · exact Or.inl ⟨rfl, putEnvelope_stale hfst⟩
    · rw [outcome_of_not_fileable hroute hfile] at h
      cases h

theorem eq_of_outcome_refused (hne : reason ≠ .stale)
    (h : outcome P cfg caller now e db = (.ok (.error reason), db')) : db' = db := by
  rcases outcome_cases h with ⟨_, _, hdb⟩ | ⟨ho, _⟩ | ⟨ho, _⟩
  · exact hdb
  · exact absurd (Except.error.inj ho) hne
  · cases ho

theorem toTables_of_outcome_stale
    (h : outcome P cfg caller now e db = (.ok (.error .stale), db')) :
    db'.toTables = db.toTables := by
  rcases outcome_cases h with ⟨_, _, rfl⟩ | ⟨_, rfl⟩ | ⟨ho, _⟩
  · rfl
  · rfl
  · cases ho

theorem next_le_of_outcome (h : outcome P cfg caller now e db = (.ok o, db')) :
    db.next ≤ db'.next := by
  rcases outcome_cases h with ⟨_, _, rfl⟩ | ⟨_, rfl⟩ | ⟨_, hnext⟩
  · exact le_rfl
  · exact (Int.lt_succ db.next).le
  · omega

theorem next_of_outcome_accepted {seq : ℤ}
    (h : outcome P cfg caller now e db = (.ok (.ok seq), db')) :
    seq = db.next + 1 ∧ db'.next = db.next + 1 := by
  rcases outcome_cases h with ⟨_, ho, _⟩ | ⟨ho, _⟩ | ⟨ho, hnext⟩
  · cases ho
  · cases ho
  · exact ⟨Except.ok.inj ho, hnext⟩

/-! ## The batch -/

theorem reportOn_cons : reportOn (e :: body) (o :: os) =
    (reportOn [e] [o]).append (reportOn body os) := by
  cases o <;> rfl

theorem Report.append_assoc {rep' rep'' : Report} :
    (rep.append rep').append rep'' = rep.append (rep'.append rep'') := by
  simp [Report.append]

theorem fileOne_eq (e : Envelope) (rep : Report) (db : SqliteDb) :
    fileOne P cfg caller now e rep db =
      match outcome P cfg caller now e db with
      | (.ok o, db') => (.ok (rep.append (reportOn [e] [o])), db')
      | (.error err, db') => (.error err, db') := by
  unfold fileOne
  cases hroute : route P cfg caller now db.toTables e with
  | error reason =>
    simp [outcome_of_error hroute, Report.append, reportOn, Report.reject, acceptedOf, rejectedOf]
  | ok accountId =>
    unfold fileAt outcome
    rcases hput : putEnvelope P accountId e db with ⟨err | _ | seq, db'⟩ <;>
      simp [hroute, hput, Report.append, reportOn, Report.reject, Report.accept, acceptedOf,
        rejectedOf]

/-- The handler files a batch as its envelopes are answered. -/
theorem fileAll_eq (body : List Envelope) (rep : Report) (db : SqliteDb) :
    fileAll P cfg caller now body rep db =
      match outcomes P cfg caller now body db with
      | (.ok os, db') => (.ok (rep.append (reportOn body os)), db')
      | (.error err, db') => (.error err, db') := by
  induction body generalizing rep db with
  | nil =>
    simp only [fileAll, outcomes, visitAll]
    simp [Report.append, reportOn]
  | cons e rest ih =>
    simp only [outcomes] at ih
    simp only [fileAll, fileOne_eq, outcomes, visitAll]
    rcases ho : outcome P cfg caller now e db with ⟨err | o, db₁⟩
    · rfl
    · simp only [ih]
      rcases hrest : visitAll (outcome P cfg caller now) rest db₁ with ⟨err | os, db₂⟩
      · rfl
      · simp only [Except.map, Report.append_assoc]
        rw [← reportOn_cons]

theorem run_push_of_outcomes (h : outcomes P cfg caller now body db = (.ok os, db')) :
    Program.run (exec P now) (push cfg caller now body) db =
      (.ok ⟨(reportOn body os).accepted, (reportOn body os).rejected, db'.next⟩, db') := by
  rw [run_push_eq, fileAll_eq, h]
  rfl

theorem outcomes_of_answered (h : answered P cfg caller now body db resp) :
    ∃ os db', outcomes P cfg caller now body db = (.ok os, db') ∧
      resp = ⟨(reportOn body os).accepted, (reportOn body os).rejected, db'.next⟩ := by
  unfold answered at h
  rcases hos : outcomes P cfg caller now body db with ⟨err | os, db'⟩
  · rw [run_push_eq, fileAll_eq] at h
    simp [hos] at h
  · refine ⟨os, db', rfl, ?_⟩
    rw [run_push_of_outcomes hos] at h
    exact (Except.ok.inj h).symm

theorem afterPush_of_outcomes (h : outcomes P cfg caller now body db = (.ok os, db')) :
    afterPush P cfg caller now body db = db' :=
  congrArg Prod.snd (run_push_of_outcomes h)

theorem map_seq_reportOn (h : os.length = body.length) :
    (reportOn body os).accepted.map Accepted.seq = os.filterMap Except.toOption := by
  induction body generalizing os with
  | nil =>
    obtain rfl := List.eq_nil_of_length_eq_zero h
    rfl
  | cons e body ih =>
    cases os with
    | nil => simp at h
    | cons o os =>
      have hrest := ih (Nat.succ.inj h)
      cases o with
      | error reason => exact hrest
      | ok seq => exact congrArg (seq :: ·) hrest

theorem increasing_of_outcomes (h : Visits (outcome P cfg caller now) body db os db') :
    (∀ seq ∈ os.filterMap Except.toOption, db.next < seq) ∧
      (os.filterMap Except.toOption).Pairwise (· < ·) := by
  induction body generalizing db os with
  | nil =>
    obtain ⟨rfl, _⟩ := visits_nil.mp h
    simp
  | cons e body ih =>
    obtain ⟨o, os', db₁, ho, hrest, rfl⟩ := visits_cons.mp h
    obtain ⟨hlt, hincreasing⟩ := ih hrest
    cases o with
    | error reason =>
      have hle := next_le_of_outcome ho
      exact ⟨fun seq hseq => hle.trans_lt (hlt seq hseq), hincreasing⟩
    | ok first =>
      obtain ⟨rfl, hnext⟩ := next_of_outcome_accepted ho
      rw [hnext] at hlt
      refine ⟨?_, List.pairwise_cons.mpr ⟨hlt, hincreasing⟩⟩
      intro seq hseq
      rcases List.mem_cons.mp hseq with rfl | hseq
      · exact Int.lt_succ db.next
      · exact (Int.lt_succ db.next).trans (hlt seq hseq)

theorem reportsEach_of_outcomes (h : outcomes P cfg caller now body db = (.ok os, db')) :
    ReportsEach body os
      ⟨(reportOn body os).accepted, (reportOn body os).rejected, db'.next⟩ where
  length_eq := Visits.length_eq h
  report_eq := rfl
  increasing := by
    rw [map_seq_reportOn (Visits.length_eq h)]
    exact (increasing_of_outcomes h).2

/-! ## An envelope among the others -/

theorem outcomes_split (h : outcomes P cfg caller now (before ++ e :: after) db = (.ok os, db')) :
    ∃ os₁ o os₂ db₁ db₂, outcomes P cfg caller now before db = (.ok os₁, db₁) ∧
      outcome P cfg caller now e db₁ = (.ok o, db₂) ∧
      outcomes P cfg caller now after db₂ = (.ok os₂, db') ∧ os = os₁ ++ o :: os₂ :=
  visits_split.mp h

theorem outcomes_append {os₁ os₂ : List Outcome} {db₁ : SqliteDb}
    (h₁ : outcomes P cfg caller now before db = (.ok os₁, db₁))
    (h₂ : outcomes P cfg caller now after db₁ = (.ok os₂, db')) :
    outcomes P cfg caller now (before ++ after) db = (.ok (os₁ ++ os₂), db') :=
  visits_append.mpr ⟨os₁, os₂, db₁, h₁, h₂, rfl⟩

theorem afterPush_snoc {os₁ : List Outcome} {db₁ : SqliteDb}
    (h₁ : outcomes P cfg caller now before db = (.ok os₁, db₁))
    (ho : outcome P cfg caller now e db₁ = (.ok o, db')) :
    afterPush P cfg caller now (before ++ [e]) db = db' :=
  afterPush_of_outcomes (visits_split.mpr
    ⟨os₁, o, [], db₁, db', h₁, ho, visits_nil.mpr ⟨rfl, rfl⟩, rfl⟩)

/-- A push that is answered has reported every envelope once, and an envelope that it rejected
has changed nothing for the others. -/
theorem rejected_alone (h : answered P cfg caller now body db resp) :
    ∃ os, (outcomes P cfg caller now body db).1 = .ok os ∧ ReportsEach body os resp ∧
      ∀ before e after, body = before ++ e :: after → ∃ os₁ o os₂, os = os₁ ++ o :: os₂ ∧
        os₁.length = before.length ∧
        (∀ reason ∈ [RejectReason.implausibleClock, .tooLarge, .notAMember], o = .error reason →
          afterPush P cfg caller now (before ++ [e]) db = afterPush P cfg caller now before db ∧
          afterPush P cfg caller now (before ++ after) db = afterPush P cfg caller now body db ∧
          (outcomes P cfg caller now (before ++ after) db).1 = .ok (os₁ ++ os₂) ∧
          ∃ resp', answered P cfg caller now (before ++ after) db resp' ∧
            ReportsEach (before ++ after) (os₁ ++ os₂) resp' ∧ resp'.cursor = resp.cursor) ∧
        (o = .error .stale → (afterPush P cfg caller now (before ++ [e]) db).toTables =
          (afterPush P cfg caller now before db).toTables) := by
  obtain ⟨os, db', hos, rfl⟩ := outcomes_of_answered h
  refine ⟨os, congrArg Prod.fst hos, reportsEach_of_outcomes hos, ?_⟩
  rintro before e after rfl
  obtain ⟨os₁, o, os₂, db₁, db₂, h₁, ho, h₂, rfl⟩ := outcomes_split hos
  refine ⟨os₁, o, os₂, rfl, Visits.length_eq h₁, ?_, ?_⟩
  · rintro reason hreason rfl
    have hne : reason ≠ .stale := by
      rintro rfl
      simp at hreason
    obtain rfl := eq_of_outcome_refused hne ho
    have hrest := outcomes_append h₁ h₂
    refine ⟨(afterPush_snoc h₁ ho).trans (afterPush_of_outcomes h₁).symm,
      (afterPush_of_outcomes hrest).trans (afterPush_of_outcomes hos).symm,
      congrArg Prod.fst hrest, _, congrArg Prod.fst (run_push_of_outcomes hrest),
      reportsEach_of_outcomes hrest, rfl⟩
  · rintro rfl
    rw [afterPush_snoc h₁ ho, afterPush_of_outcomes h₁]
    exact toTables_of_outcome_stale ho

section Runs

open Reference

def adaOnly : SqliteDb := Server.reached .reference config [registration "ada"]

def early : Envelope := host "early" .personal none (3 * maxClockSkewMs)

def mixed : List Envelope := [host "h" .personal none 5, host "h" .personal none 5, early,
  host "k" .personal none 5]

theorem outcomes_mixed : (outcomes .reference config ⟨"ada"⟩ 0 mixed adaOnly).1 =
    .ok [.ok 1, .error .stale, .error .implausibleClock, .ok 3] := by
  decide +kernel

theorem mixed_without_early :
    afterPush .reference config ⟨"ada"⟩ 0 (mixed.eraseIdx 2) adaOnly =
      afterPush .reference config ⟨"ada"⟩ 0 mixed adaOnly := by
  have hresp : answered .reference config ⟨"ada"⟩ 0 mixed adaOnly
      ⟨[⟨"h", "host", 1⟩, ⟨"k", "host", 3⟩],
        [⟨"h", "host", .stale⟩, ⟨"early", "host", .implausibleClock⟩], 3⟩ := by
    decide +kernel
  obtain ⟨os, hos, _, hsplit⟩ := rejected_alone hresp
  obtain ⟨os₁, o, os₂, rfl, hlen, hrefused, _⟩ := hsplit (mixed.take 2) early (mixed.drop 3) rfl
  have hall : os₁ ++ o :: os₂ = [.ok 1, .error .stale] ++ [.error .implausibleClock, .ok 3] :=
    Except.ok.inj (hos.symm.trans outcomes_mixed)
  have ho : o = .error .implausibleClock := (List.cons.inj (List.append_inj hall hlen).2).1
  exact (hrefused .implausibleClock (by simp) ho).2.1

end Runs

end RemotierSync.Sync
