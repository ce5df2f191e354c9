import RemotierSync.Backends

/-!
# The numbers of the change log

All accounts share one counter, and every write that the store commits draws the next number from
it, whether it wins the row or not. No number is therefore on two rows or above the counter, and a
write that is accepted stands under a number greater than all that the store has answered so far:
those of earlier writes, those of pulled envelopes and the marks.
-/

namespace RemotierSync.Numbering

open SqliteStore Backends

variable (P : Platform)

def numbersIn : (c : Call) → Except Error c.Ret → List ℤ
  | .putEnvelope .., .ok seq => seq.toList
  | .pull .., .ok envelopes => envelopes.map Envelope.seq
  | .maxSeq _, .ok mark => [mark]
  | _, _ => []

def Answered (calls : List TimedCall) (seq : ℤ) : Prop :=
  History.Occurred (sqliteStep P) .migrated
    (fun db c => seq ∈ numbersIn c.call (exec P c.now c.call db).1) calls

/-- The write stands under a number greater than all that were answered before, and every other
row is as it was. -/
structure Appended (calls : List TimedCall) (accountId : String) (e : Envelope) (seq : ℤ)
    (db' : SqliteDb) : Prop where
  later : ∀ earlier, Answered P calls earlier → earlier < seq
  row : db'.records.find? (recordKey accountId e) = some (P.recordEntry accountId e seq)
  others : ∀ k, k ≠ recordKey accountId e →
    db'.records.find? k = (sqliteReached P calls).records.find? k

/-- No number is on two rows or above the counter, and a write that is accepted next is appended. -/
structure WellNumbered (calls : List TimedCall) : Prop where
  distinct : ChangeLog.Distinct RecordEntry.seq (sqliteReached P calls).records.rows
  le_next : ∀ r ∈ (sqliteReached P calls).records.rows, r.seq ≤ (sqliteReached P calls).next
  accepted : ∀ now accountId e seq db',
    exec P now (.putEnvelope accountId e) (sqliteReached P calls) = (.ok (some seq), db') →
      Appended P calls accountId e seq db'

variable {P} {db : SqliteDb} {now seq : ℤ} {calls : List TimedCall}

theorem wellFormed_sqliteReached (calls : List TimedCall) : WellFormed (sqliteReached P calls) :=
  History.run_invariant wellFormed_migrated (fun _ _ => wellFormed_exec) calls

theorem exists_row_of_pull {accountId : String} {cursor limit : ℤ} {es : List Envelope}
    (h : pull P accountId cursor limit db = .ok es) {e : Envelope} (he : e ∈ es) :
    ∃ r ∈ db.records.rows, e.seq = r.seq := by
  obtain ⟨r, hr, hdec⟩ := Sync.exists_row_of_decodes (Sync.forall₂_of_mapM_eq_ok h) he
  have hrows : r ∈ db.pullRows accountId cursor := by
    split_ifs at hr
    · exact hr
    · exact List.mem_of_mem_take hr
  exact ⟨r, (Tables.mem_pullRows.mp hrows).1.1, envelopeFromRow_seq hdec⟩

theorem le_next_of_mem_numbersIn (hdb : WellFormed db) {c : Call}
    (h : seq ∈ numbersIn c (exec P now c db).1) : seq ≤ (exec P now c db).2.next := by
  cases c with
  | putEnvelope accountId e =>
    rcases hput : (putEnvelope P accountId e db).1 with err | answer
    · simp [exec, hput, numbersIn] at h
    · simp only [exec, hput, numbersIn, Option.mem_toList] at h
      obtain rfl := h
      exact (next_of_accepted hput).ge
  | pull accountId cursor limit =>
    rcases hpull : pull P accountId cursor limit db with err | es
    · simp [exec, hpull, numbersIn] at h
    · simp only [exec, hpull, numbersIn, List.mem_map] at h
      obtain ⟨e, he, rfl⟩ := h
      obtain ⟨r, hr, hseq⟩ := exists_row_of_pull hpull he
      rw [hseq]
      exact hdb.seq_le r hr
  | maxSeq accountId =>
    obtain rfl := List.mem_singleton.mp h
    exact le_rfl
  | _ => cases h

theorem le_next_of_answered (h : Answered P calls seq) : seq ≤ (sqliteReached P calls).next := by
  induction calls using List.reverseRecOn with
  | nil => exact absurd h History.not_occurred_nil
  | append_singleton calls c ih =>
    rw [sqliteReached, History.run_snoc]
    rcases History.occurred_snoc.mp h with h | h
    · exact (ih h).trans grows_exec.1
    · exact le_next_of_mem_numbersIn (wellFormed_sqliteReached calls) h

/-- Every run numbers its log well. -/
theorem log_numbered (P : Platform) (calls : List TimedCall) : WellNumbered P calls where
  distinct := (wellFormed_sqliteReached calls).distinct
  le_next := (wellFormed_sqliteReached calls).seq_le
  accepted now accountId e seq db' h := by
    have hput : (putEnvelope P accountId e (sqliteReached P calls)).1 = .ok (some seq) :=
      congrArg Prod.fst h
    obtain rfl : (putEnvelope P accountId e (sqliteReached P calls)).2 = db' := congrArg Prod.snd h
    refine ⟨?_, find?_of_accepted hput, fun k => find?_putEnvelope_of_ne⟩
    intro earlier hearlier
    have hle := le_next_of_answered hearlier
    obtain ⟨_, _, rfl⟩ := of_accepted hput
    omega

end RemotierSync.Numbering
