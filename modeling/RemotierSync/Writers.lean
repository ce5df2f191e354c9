import RemotierSync.Client
import RemotierSync.Postgres
import RemotierSync.Library.History

/-!
# Concurrent writers on Postgres

Statements that run at the same time, and a client that pulls while they do. A statement draws
its number first and commits later, so numbers may become visible in another order than they were
drawn in. Whatever the order, no number is stored twice.
-/

namespace RemotierSync

/-- The database, the statements that have drawn and not committed, and the client. -/
structure Writers extends Reader PostgresDb where
  inFlight : List PutStatement

namespace Writers

open PostgresStore ChangeLog Client Reader

inductive Event where
  | draw (accountId : String) (e : Envelope)
  | commit (i : ℕ)
  | pull (now : ℤ)
deriving DecidableEq

def committing (s : Writers) : Event → Option PutStatement
  | .commit i => s.inFlight[i]?
  | _ => none

/-- An empty change log. Accounts and shares may be there already. -/
def start (t : Tables) : Writers :=
  { Client.start with
    db := { t with records := .empty, recordSeq := .start }
    inFlight := [] }

variable (P : Platform) (textGt : String → String → Bool) (cfg : Config) (caller : Caller)

def answer (now : ℤ) (s : Writers) : Except Error PullResponse :=
  s.toReader.answer (exec P textGt now) cfg caller

def step (s : Writers) : Event → Writers
  | .draw accountId e =>
    if (Call.putEnvelope accountId e).NulFree P then
      let (st, db) := drawPut accountId e s.db
      { s with db := db, inFlight := s.inFlight ++ [st] }
    else s
  | .commit i =>
    match s.inFlight[i]? with
    | none => s
    | some st =>
      { s with db := (commitPut P textGt st s.db).2, inFlight := s.inFlight.eraseIdx i }
  | .pull now => { s with toReader := s.toReader.pull (exec P textGt now) cfg caller }

variable {P} {textGt} {cfg} {caller} {t : Tables} {s : Writers} {now : ℤ} {resp : PullResponse}

theorem readsLog : Sync.ReadsLog P (exec P textGt now) PostgresDb.toTables := by
  intro accountId cursor limit db hlimit
  by_cases h : (Call.pull accountId cursor limit).NulFree P
  · rw [exec_of_nulFree h]
    refine ⟨rfl, fun es hes => ?_⟩
    rwa [execute, PostgresStore.pull, if_neg (not_lt.mpr hlimit)] at hes
  · rw [exec_of_not_nulFree h]
    exact ⟨rfl, by simp⟩

/-! ## Numbers -/

/-- The numbers stored and in flight are all different and have all been drawn. -/
structure Sound (s : Writers) : Prop where
  stored_lt : ∀ r ∈ s.db.records.rows, r.seq < s.db.recordSeq.peek
  drawn_lt : ∀ st ∈ s.inFlight, st.seq < s.db.recordSeq.peek
  distinct : Distinct RecordEntry.seq s.db.records.rows
  drawn_distinct : Distinct PutStatement.seq s.inFlight
  apart : ∀ r ∈ s.db.records.rows, ∀ st ∈ s.inFlight, r.seq ≠ st.seq

theorem sound_start (t : Tables) : Sound (start t) where
  stored_lt := by simp [start]
  drawn_lt := by simp [start]
  distinct := List.nodup_nil
  drawn_distinct := List.nodup_nil
  apart := by simp [start]

theorem step_draw_of_nulFree {accountId : String} {e : Envelope}
    (h : (Call.putEnvelope accountId e).NulFree P) :
    step P textGt cfg caller s (.draw accountId e) =
      { s with
        db := (drawPut accountId e s.db).2
        inFlight := s.inFlight ++ [(drawPut accountId e s.db).1] } :=
  if_pos h

theorem step_draw_of_not_nulFree {accountId : String} {e : Envelope}
    (h : ¬ (Call.putEnvelope accountId e).NulFree P) :
    step P textGt cfg caller s (.draw accountId e) = s :=
  if_neg h

theorem sound_draw (hs : Sound s) (accountId : String) (e : Envelope) :
    Sound (step P textGt cfg caller s (.draw accountId e)) := by
  by_cases hfree : (Call.putEnvelope accountId e).NulFree P
  swap
  · rwa [step_draw_of_not_nulFree hfree]
  rw [step_draw_of_nulFree hfree]
  refine ⟨?_, ?_, hs.distinct, ?_, ?_⟩
  · intro r hr
    have := hs.stored_lt r hr
    dsimp only
    rw [drawPut_peek]
    omega
  · intro st hst
    dsimp only
    rw [drawPut_peek]
    rw [List.mem_append, List.mem_singleton] at hst
    rcases hst with hst | rfl
    · have := hs.drawn_lt st hst
      omega
    · rw [drawPut_seq]
      omega
  · rw [Distinct, List.map_append, List.nodup_append]
    refine ⟨hs.drawn_distinct, List.nodup_singleton _, ?_⟩
    intro k hk k' hk'
    obtain ⟨st, hst, rfl⟩ := List.mem_map.mp hk
    have := hs.drawn_lt st hst
    rw [List.mem_singleton.mp hk', drawPut_seq]
    omega
  · intro r hr st hst
    rw [List.mem_append, List.mem_singleton] at hst
    rcases hst with hst | rfl
    · exact hs.apart r hr st hst
    · have := hs.stored_lt r hr
      rw [drawPut_seq]
      omega

theorem step_commit_of_none {i : ℕ} (h : s.inFlight[i]? = none) :
    step P textGt cfg caller s (.commit i) = s := by
  simp only [step, h]

theorem step_commit_of_some {i : ℕ} {st : PutStatement} (h : s.inFlight[i]? = some st) :
    step P textGt cfg caller s (.commit i) =
      { s with db := (commitPut P textGt st s.db).2, inFlight := s.inFlight.eraseIdx i } := by
  simp only [step, h]

theorem ne_of_mem_eraseIdx (hs : Sound s) {i : ℕ} {st st' : PutStatement}
    (h : s.inFlight[i]? = some st) (hst' : st' ∈ s.inFlight.eraseIdx i) : st.seq ≠ st'.seq := by
  obtain ⟨j, hj, hj'⟩ := List.mem_eraseIdx_iff_getElem?.mp hst'
  intro heq
  have hnodup : (s.inFlight.map PutStatement.seq).Nodup := hs.drawn_distinct
  have hi : (s.inFlight.map PutStatement.seq)[i]? = (s.inFlight.map PutStatement.seq)[j]? := by
    rw [List.getElem?_map, List.getElem?_map, h, hj', Option.map_some, Option.map_some, heq]
  have hlt : i < (s.inFlight.map PutStatement.seq).length := by
    rw [List.length_map]
    exact (List.getElem?_eq_some_iff.mp h).1
  exact hj ((List.getElem?_inj hlt hnodup).mp hi).symm

theorem sound_commit (hs : Sound s) (i : ℕ) :
    Sound (step P textGt cfg caller s (.commit i)) := by
  cases h : s.inFlight[i]? with
  | none => rwa [step_commit_of_none h]
  | some st =>
    rw [step_commit_of_some h]
    have hst : st ∈ s.inFlight := List.mem_of_getElem? h
    have hadded : ∀ r ∈ (commitPut P textGt st s.db).2.records.rows,
        r ∈ s.db.records.rows ∨ r = st.row P :=
      fun r hr => (mem_commitPut hr).imp_right And.left
    refine ⟨?_, ?_, ?_, ?_, ?_⟩
    · intro r hr
      dsimp only
      rw [commitPut_recordSeq]
      rcases hadded r hr with hr | rfl
      · exact hs.stored_lt r hr
      · exact hs.drawn_lt st hst
    · intro st' hst'
      exact hs.drawn_lt st' (List.mem_of_mem_eraseIdx hst')
    · exact hs.distinct.of_added (KeyedTable.rows_nodup _) hadded
        (fun r hr => hs.apart r hr st hst)
    · exact hs.drawn_distinct.sublist ((List.eraseIdx_sublist _ _).map _)
    · intro r hr st' hst'
      rcases hadded r hr with hr | rfl
      · exact hs.apart r hr st' (List.mem_of_mem_eraseIdx hst')
      · exact ne_of_mem_eraseIdx hs h hst'

theorem sound_step (hs : Sound s) (ev : Event) : Sound (step P textGt cfg caller s ev) := by
  cases ev with
  | draw accountId e => exact sound_draw hs accountId e
  | commit i => exact sound_commit hs i
  | pull now =>
    cases ha : s.toReader.answer (exec P textGt now) cfg caller with
    | error err => rwa [step, pull_of_error readsLog ha]
    | ok resp =>
      rw [step, pull_of_ok readsLog ha]
      exact ⟨hs.stored_lt, hs.drawn_lt, hs.distinct, hs.drawn_distinct, hs.apart⟩

end Writers
end RemotierSync
