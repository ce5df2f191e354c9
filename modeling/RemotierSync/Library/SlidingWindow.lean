import RemotierSync.Library.History
import Mathlib.Data.List.Count

/-!
# Sliding windows

A limiter admits an attempt if fewer than `max` of those it has admitted under the same key lie
less than `window` before it. `record` keeps the log of the admitted attempts for ever; what has
left the window does not come back into it as long as the clock does not (`filter_recent`). No
half-open interval as long as the window holds more than `max` admitted attempts of one key, and
what is answered under a key does not depend on the attempts under other keys.
-/

namespace RemotierSync.SlidingWindow

structure Attempt (κ : Type*) where
  key : κ
  time : ℕ
deriving DecidableEq, Repr

variable {κ : Type*} [DecidableEq κ] (max window : ℕ)

/-- The attempts of the log under a key that lie in the window ending now. -/
def recent (log : List (Attempt κ)) (key : κ) (now : ℕ) : List (Attempt κ) :=
  log.filter (fun a => a.key = key ∧ now - a.time < window)

def admits (log : List (Attempt κ)) (a : Attempt κ) : Bool :=
  (recent window log a.key a.time).length < max

def record (log : List (Attempt κ)) (a : Attempt κ) : List (Attempt κ) :=
  if admits max window log a then log ++ [a] else log

def admitted (attempts : List (Attempt κ)) : List (Attempt κ) :=
  History.run (record max window) [] attempts

def answers (attempts : List (Attempt κ)) : List Bool :=
  History.outputs (record max window) (admits max window) [] attempts

variable {max} {window} {log attempts : List (Attempt κ)} {a : Attempt κ} {key : κ} {now start : ℕ}

theorem admits_iff : admits max window log a = true ↔
    (recent window log a.key a.time).length < max := by
  simp [admits]

theorem admitted_snoc :
    admitted max window (attempts ++ [a]) = record max window (admitted max window attempts) a :=
  History.run_snoc _ _ _ _

theorem filter_recent {before : ℕ} (h : before ≤ now) :
    (recent window log key before).filter (fun a => now - a.time < window) =
      recent window log key now := by
  rw [recent, List.filter_filter, recent]
  apply List.filter_congr
  intro a _
  rw [← Bool.decide_and]
  apply decide_eq_decide.mpr
  constructor
  · rintro ⟨hnow, hkey, _⟩
    exact ⟨hkey, hnow⟩
  · rintro ⟨hkey, hnow⟩
    exact ⟨hnow, hkey, by omega⟩

theorem admitted_eq_filter (attempts : List (Attempt κ)) : admitted max window attempts =
    ((attempts.zip (answers max window attempts)).filter Prod.snd).map Prod.fst := by
  induction attempts using List.reverseRecOn with
  | nil => rfl
  | append_singleton attempts a ih =>
    have hlength : attempts.length = (answers max window attempts).length :=
      History.length_outputs.symm
    rw [admitted_snoc, answers, History.outputs_snoc, ← answers, List.zip_append hlength,
      List.filter_append, List.map_append, ← ih, record]
    change _ = _ ++ List.map Prod.fst
      (List.filter Prod.snd [(a, admits max window (admitted max window attempts) a)])
    cases admits max window (admitted max window attempts) a <;> simp

theorem mem_admitted : a ∈ admitted max window attempts ↔
    (a, true) ∈ attempts.zip (answers max window attempts) := by
  rw [admitted_eq_filter]
  simp

theorem countP_answered (p : Attempt κ → Prop) [DecidablePred p] :
    (attempts.zip (answers max window attempts)).countP (fun q => q.2 ∧ p q.1) =
      (admitted max window attempts).countP (fun a => p a) := by
  rw [admitted_eq_filter, List.countP_map, List.countP_filter]
  apply List.countP_congr
  intro q _
  simp [and_comm]

/-! ## Bounded -/

/-- An admitted attempt in an interval no longer than the window has those before it in the
interval among its recent ones. -/
theorem countP_le_recent (ha : start ≤ a.time ∧ a.time < start + window) :
    log.countP (fun b => b.key = a.key ∧ start ≤ b.time ∧ b.time < start + window) ≤
      (recent window log a.key a.time).length := by
  rw [recent, ← List.countP_eq_length_filter]
  apply List.countP_mono_left
  intro b _ hb
  simp only [decide_eq_true_eq] at hb ⊢
  exact ⟨hb.1, by omega⟩

theorem countP_admitted_le (attempts : List (Attempt κ)) (key : κ) (start : ℕ) :
    (admitted max window attempts).countP
      (fun a => a.key = key ∧ start ≤ a.time ∧ a.time < start + window) ≤ max := by
  induction attempts using List.reverseRecOn with
  | nil => exact Nat.zero_le max
  | append_singleton attempts a ih =>
    rw [admitted_snoc, record]
    split_ifs with hadmits
    · rw [List.countP_append]
      by_cases ha : a.key = key ∧ start ≤ a.time ∧ a.time < start + window
      · obtain ⟨rfl, hinterval⟩ := ha
        have hfew := Nat.lt_of_le_of_lt (countP_le_recent hinterval) (admits_iff.mp hadmits)
        have hone : [a].countP
            (fun b => b.key = a.key ∧ start ≤ b.time ∧ b.time < start + window) = 1 := by
          simp [hinterval]
        omega
      · have hnone : [a].countP
            (fun b => b.key = key ∧ start ≤ b.time ∧ b.time < start + window) = 0 := by
          simpa using ha
        omega
    · exact ih

/-! ## Isolated -/

theorem recent_filter_key :
    recent window (log.filter (fun a => a.key = key)) key now = recent window log key now := by
  rw [recent, List.filter_filter, recent]
  apply List.filter_congr
  intro a _
  rw [← Bool.decide_and]
  apply decide_eq_decide.mpr
  constructor
  · exact And.left
  · intro hrecent
    exact ⟨hrecent, hrecent.1⟩

/-- Under a key the log decides as its part under the key does. -/
theorem admits_filter_key (h : a.key = key) :
    admits max window (log.filter (fun a => a.key = key)) a = admits max window log a := by
  rw [admits, h, recent_filter_key, admits, h]

theorem record_filter_of_eq (h : a.key = key) :
    (record max window log a).filter (fun a => a.key = key) =
      record max window (log.filter (fun a => a.key = key)) a := by
  rw [record, record, admits_filter_key h]
  split_ifs
  · simp [h]
  · rfl

theorem record_filter_of_ne (h : a.key ≠ key) :
    (record max window log a).filter (fun a => a.key = key) =
      log.filter (fun a => a.key = key) := by
  rw [record]
  split_ifs
  · simp [h]
  · rfl

theorem outputs_filter_key (log attempts : List (Attempt κ)) (key : κ) :
    ((attempts.zip (History.outputs (record max window) (admits max window) log attempts)).filter
        (fun p => p.1.key = key)).map Prod.snd =
      History.outputs (record max window) (admits max window)
        (log.filter (fun a => a.key = key)) (attempts.filter (fun a => a.key = key)) := by
  induction attempts generalizing log with
  | nil => rfl
  | cons a attempts ih =>
    rw [History.outputs_cons, List.zip_cons_cons]
    by_cases h : a.key = key
    · rw [List.filter_cons_of_pos (by simpa using h), List.filter_cons_of_pos (by simpa using h),
        List.map_cons, ih, History.outputs_cons, admits_filter_key h, record_filter_of_eq h]
    · rw [List.filter_cons_of_neg (by simpa using h), List.filter_cons_of_neg (by simpa using h),
        ih, record_filter_of_ne h]

theorem answers_filter_key (attempts : List (Attempt κ)) (key : κ) :
    ((attempts.zip (answers max window attempts)).filter (fun p => p.1.key = key)).map Prod.snd =
      answers max window (attempts.filter (fun a => a.key = key)) :=
  outputs_filter_key [] attempts key

end RemotierSync.SlidingWindow
