import Mathlib.Data.List.Basic
import Mathlib.Data.List.Induction
import Mathlib.Tactic.Common

/-!
# Runs and their histories

A system is a function `step` from a state and an event to the next state; a run is the list of
its events. `Occurred` and `Always` speak about the events of a run together with the states in
which they happened, `Standing` and `Since` about a condition switched on by some events and off
by others, `Kept` about one that may have held from the start. Each has a lemma for one more event
at the end of the run, so that a property of runs is proved by `run_induction` from what the last
event does.
-/

namespace RemotierSync.History

variable {σ α : Type*} (step : σ → α → σ) (start : σ)

def run (events : List α) : σ := events.foldl step start

@[simp] theorem run_nil : run step start [] = start := rfl

@[simp] theorem run_snoc (events : List α) (a : α) :
    run step start (events ++ [a]) = step (run step start events) a := by
  simp [run, List.foldl_append]

theorem run_append (events more : List α) :
    run step start (events ++ more) = run step (run step start events) more := by
  simp [run, List.foldl_append]

/-- Some event of the run satisfied `P` in the state in which it happened. -/
def Occurred (P : σ → α → Prop) (events : List α) : Prop :=
  ∃ before a after, events = before ++ a :: after ∧ P (run step start before) a

def Always (P : σ → α → Prop) (events : List α) : Prop :=
  ∀ before a after, events = before ++ a :: after → P (run step start before) a

def Standing (on : σ → α → Prop) (off : α → Prop) (events : List α) : Prop :=
  ∃ before a after, events = before ++ a :: after ∧ on (run step start before) a ∧
    ∀ b ∈ after, ¬ off b

/-- Some event switched the condition on and none after it switched it off, each judged in the
state in which it happened. -/
def Since (on off : σ → α → Prop) (events : List α) : Prop :=
  ∃ before a after, events = before ++ a :: after ∧ on (run step start before) a ∧
    Always step (run step start (before ++ [a])) (fun s b => ¬ off s b) after

/-- The condition held at the start or was switched on, and no event after that switched it off. -/
def Kept (on off : σ → α → Prop) (atStart : Prop) (events : List α) : Prop :=
  Since step start on off events ∨
    (atStart ∧ Always step start (fun s b => ¬ off s b) events)

/-- Some event satisfied `Q`, and an earlier one `P`. -/
def Followed (P Q : σ → α → Prop) (events : List α) : Prop :=
  ∃ before a after, events = before ++ a :: after ∧ Q (run step start before) a ∧
    Occurred step start P before

def outputs {β : Type*} (out : σ → α → β) : σ → List α → List β
  | _, [] => []
  | s, a :: events => out s a :: outputs out (step s a) events

variable {step start} {P Q : σ → α → Prop} {on : σ → α → Prop} {off : α → Prop}
  {events before after before' after' : List α} {a b : α}

theorem snoc_eq_append_cons :
    before ++ [a] = before' ++ b :: after' ↔
      (before' = before ∧ b = a ∧ after' = []) ∨
        ∃ mid, after' = mid ++ [a] ∧ before = before' ++ b :: mid := by
  constructor
  · intro h
    rcases List.eq_nil_or_concat' after' with rfl | ⟨mid, c, rfl⟩
    · obtain ⟨hb, ha⟩ := List.append_inj' h rfl
      exact Or.inl ⟨hb.symm, (List.cons.inj ha).1.symm, rfl⟩
    · have h' : before ++ [a] = (before' ++ b :: mid) ++ [c] := by simpa using h
      obtain ⟨hb, ha⟩ := List.append_inj' h' rfl
      obtain rfl : a = c := (List.cons.inj ha).1
      exact Or.inr ⟨mid, rfl, hb⟩
  · rintro (⟨rfl, rfl, rfl⟩ | ⟨mid, rfl, rfl⟩)
    · rfl
    · simp

section Outputs

variable {β : Type*} {out : σ → α → β}

@[simp] theorem outputs_nil : outputs step out start [] = [] := rfl

theorem outputs_cons :
    outputs step out start (a :: events) = out start a :: outputs step out (step start a) events :=
  rfl

@[simp] theorem length_outputs : (outputs step out start events).length = events.length := by
  induction events generalizing start with
  | nil => rfl
  | cons a events ih => rw [outputs_cons, List.length_cons, List.length_cons, ih]

theorem outputs_snoc : outputs step out start (events ++ [a]) =
    outputs step out start events ++ [out (run step start events) a] := by
  induction events generalizing start with
  | nil => rfl
  | cons b events ih =>
    rw [List.cons_append, outputs_cons, ih, outputs_cons]
    rfl

end Outputs

@[simp] theorem not_occurred_nil : ¬ Occurred step start P [] := by
  rintro ⟨before, a, after, h, _⟩
  simp at h

@[simp] theorem always_nil : Always step start P [] := by
  intro before a after h
  simp at h

@[simp] theorem not_standing_nil : ¬ Standing step start on off [] := by
  rintro ⟨before, a, after, h, _⟩
  simp at h

theorem occurred_snoc :
    Occurred step start P (events ++ [a]) ↔
      Occurred step start P events ∨ P (run step start events) a := by
  constructor
  · rintro ⟨before, b, after, h, hP⟩
    rcases snoc_eq_append_cons.mp h with ⟨rfl, rfl, rfl⟩ | ⟨mid, rfl, rfl⟩
    · exact Or.inr hP
    · exact Or.inl ⟨before, b, mid, rfl, hP⟩
  · rintro (⟨before, b, after, rfl, hP⟩ | hP)
    · exact ⟨before, b, after ++ [a], by simp, hP⟩
    · exact ⟨events, a, [], rfl, hP⟩

theorem always_snoc :
    Always step start P (events ++ [a]) ↔
      Always step start P events ∧ P (run step start events) a := by
  constructor
  · intro h
    exact ⟨fun before b after he => h before b (after ++ [a]) (by simp [he]),
      h events a [] rfl⟩
  · rintro ⟨h, hP⟩ before b after he
    rcases snoc_eq_append_cons.mp he with ⟨rfl, rfl, rfl⟩ | ⟨mid, rfl, rfl⟩
    · exact hP
    · exact h before b mid rfl

theorem always_cons :
    Always step start P (a :: events) ↔ P start a ∧ Always step (step start a) P events := by
  constructor
  · intro h
    exact ⟨h [] a events rfl, fun before b after he => h (a :: before) b after (by simp [he])⟩
  · rintro ⟨hP, h⟩ before b after he
    cases before with
    | nil =>
      obtain ⟨rfl, rfl⟩ := List.cons.inj he
      exact hP
    | cons c before =>
      obtain ⟨rfl, htail⟩ := List.cons.inj he
      exact h before b after htail

instance decidableAlways [∀ s a, Decidable (P s a)] :
    (start : σ) → (events : List α) → Decidable (Always step start P events)
  | _, [] => isTrue always_nil
  | start, a :: events =>
    have := decidableAlways (step start a) events
    decidable_of_iff _ always_cons.symm

theorem always_of_append (h : Always step start P (before ++ after)) :
    Always step start P before := by
  intro pre a post he
  exact h pre a (post ++ after) (by simp [he])

theorem standing_snoc :
    Standing step start on off (events ++ [a]) ↔
      on (run step start events) a ∨ (Standing step start on off events ∧ ¬ off a) := by
  constructor
  · rintro ⟨before, b, after, h, hon, hoff⟩
    rcases snoc_eq_append_cons.mp h with ⟨rfl, rfl, rfl⟩ | ⟨mid, rfl, rfl⟩
    · exact Or.inl hon
    · exact Or.inr ⟨⟨before, b, mid, rfl, hon, fun c hc => hoff c (by simp [hc])⟩,
        hoff a (by simp)⟩
  · rintro (hon | ⟨⟨before, b, after, rfl, hon, hoff⟩, ha⟩)
    · exact ⟨events, a, [], rfl, hon, by simp⟩
    · refine ⟨before, b, after ++ [a], by simp, hon, ?_⟩
      intro c hc
      rcases List.mem_append.mp hc with hc | hc
      · exact hoff c hc
      · rwa [List.mem_singleton.mp hc]

theorem since_snoc {off : σ → α → Prop} :
    Since step start on off (events ++ [a]) ↔
      on (run step start events) a ∨
        (Since step start on off events ∧ ¬ off (run step start events) a) := by
  constructor
  · rintro ⟨before, b, after, h, hon, hoff⟩
    rcases snoc_eq_append_cons.mp h with ⟨rfl, rfl, rfl⟩ | ⟨mid, rfl, rfl⟩
    · exact Or.inl hon
    · obtain ⟨hmid, ha⟩ := always_snoc.mp hoff
      rw [← run_append, List.append_assoc] at ha
      exact Or.inr ⟨⟨before, b, mid, rfl, hon, hmid⟩, ha⟩
  · rintro (hon | ⟨⟨before, b, after, rfl, hon, hoff⟩, ha⟩)
    · exact ⟨events, a, [], rfl, hon, always_nil⟩
    · refine ⟨before, b, after ++ [a], by simp, hon, always_snoc.mpr ⟨hoff, ?_⟩⟩
      rwa [← run_append, List.append_assoc]

@[simp] theorem not_since_nil {off : σ → α → Prop} : ¬ Since step start on off [] := by
  rintro ⟨before, a, after, h, _⟩
  simp at h

section Kept

variable {off : σ → α → Prop} {atStart : Prop} {I : List α → Prop}

theorem kept_nil : Kept step start on off atStart [] ↔ atStart := by
  simp [Kept]

theorem kept_snoc :
    Kept step start on off atStart (events ++ [a]) ↔
      on (run step start events) a ∨
        (Kept step start on off atStart events ∧ ¬ off (run step start events) a) := by
  rw [Kept, since_snoc, always_snoc, Kept]
  tauto

/-- A property of runs follows from a condition that is kept if it follows from it at the start and
when it is switched on, and lasts as long as it is not switched off. -/
theorem Kept.induction (hstart : atStart → I [])
    (hon : ∀ events a, on (run step start events) a → I (events ++ [a]))
    (hkeep : ∀ events a, I events → ¬ off (run step start events) a → I (events ++ [a]))
    (h : Kept step start on off atStart events) : I events := by
  induction events using List.reverseRecOn with
  | nil => exact hstart (kept_nil.mp h)
  | append_singleton events a ih =>
    rcases kept_snoc.mp h with ha | ⟨hkept, ha⟩
    · exact hon events a ha
    · exact hkeep events a (ih hkept) ha

/-- What holds only once it is switched on, and then only until it is switched off, is kept. -/
theorem kept_of (hstart : I [] → atStart)
    (hsnoc : ∀ events a, I (events ++ [a]) →
      on (run step start events) a ∨ (I events ∧ ¬ off (run step start events) a))
    (h : I events) : Kept step start on off atStart events := by
  induction events using List.reverseRecOn with
  | nil => exact kept_nil.mpr (hstart h)
  | append_singleton events a ih =>
    rw [kept_snoc]
    exact (hsnoc events a h).imp_right (fun hold => ⟨ih hold.1, hold.2⟩)

end Kept

theorem Occurred.append (h : Occurred step start P events) (more : List α) :
    Occurred step start P (events ++ more) := by
  obtain ⟨before, a, after, rfl, hP⟩ := h
  exact ⟨before, a, after ++ more, by simp, hP⟩

theorem followed_snoc :
    Followed step start P Q (events ++ [a]) ↔
      Followed step start P Q events ∨
        (Occurred step start P events ∧ Q (run step start events) a) := by
  constructor
  · rintro ⟨before, b, after, h, hQ, hP⟩
    rcases snoc_eq_append_cons.mp h with ⟨rfl, rfl, rfl⟩ | ⟨mid, rfl, rfl⟩
    · exact Or.inr ⟨hP, hQ⟩
    · exact Or.inl ⟨before, b, mid, rfl, hQ, hP⟩
  · rintro (⟨before, b, after, rfl, hQ, hP⟩ | ⟨hP, hQ⟩)
    · exact ⟨before, b, after ++ [a], by simp, hQ, hP⟩
    · exact ⟨events, a, [], rfl, hQ, hP⟩

theorem Followed.first (h : Followed step start P Q events) : Occurred step start P events := by
  obtain ⟨before, a, after, rfl, _, hP⟩ := h
  exact hP.append _

theorem Followed.second (h : Followed step start P Q events) : Occurred step start Q events := by
  obtain ⟨before, a, after, rfl, hQ, _⟩ := h
  exact ⟨before, a, after, rfl, hQ⟩

theorem Standing.exists_on (h : Standing step start on off events) : ∃ a ∈ events, ∃ s, on s a := by
  obtain ⟨before, a, after, rfl, hon, _⟩ := h
  exact ⟨a, by simp, _, hon⟩

/-- A property of runs holds if it holds initially and one more event, taken under the condition
imposed on every event, preserves it. -/
theorem run_induction {I : List α → Prop} (hnil : I [])
    (hsnoc : ∀ events a, I events → P (run step start events) a → I (events ++ [a]))
    (h : Always step start P events) : I events := by
  induction events using List.reverseRecOn with
  | nil => exact hnil
  | append_singleton events a ih =>
    obtain ⟨hall, hlast⟩ := always_snoc.mp h
    exact hsnoc events a (ih hall) hlast

/-- Two systems that take the same events stay related if one more event, taken under the
condition imposed on every event of the first one, keeps them so. -/
theorem run_simulation {τ : Type*} {step' : τ → α → τ} {start' : τ} {R : σ → τ → Prop}
    (hstart : R start start')
    (hstep : ∀ s s' a, R s s' → P s a → R (step s a) (step' s' a))
    (h : Always step start P events) : R (run step start events) (run step' start' events) := by
  apply run_induction (I := fun events => R (run step start events) (run step' start' events))
    hstart _ h
  intro events a hevents ha
  rw [run_snoc, run_snoc]
  exact hstep _ _ a hevents ha

theorem outputs_simulation {τ β : Type*} {step' : τ → α → τ} {out : σ → α → β} {out' : τ → α → β}
    {R : σ → τ → Prop} {start' : τ}
    (hstep : ∀ a ∈ events, ∀ s s', R s s' → out s a = out' s' a ∧ R (step s a) (step' s' a))
    (hstart : R start start') :
    outputs step out start events = outputs step' out' start' events ∧
      R (run step start events) (run step' start' events) := by
  induction events generalizing start start' with
  | nil => exact ⟨rfl, hstart⟩
  | cons a events ih =>
    obtain ⟨hout, hnext⟩ := hstep a List.mem_cons_self start start' hstart
    obtain ⟨houts, hrun⟩ := ih (fun b hb => hstep b (List.mem_cons_of_mem a hb)) hnext
    exact ⟨by rw [outputs_cons, outputs_cons, hout, houts], hrun⟩

/-- An invariant of single steps holds in the state every run reaches. -/
theorem run_invariant {I : σ → Prop} (hstart : I start)
    (hstep : ∀ s a, I s → I (step s a)) (events : List α) : I (run step start events) := by
  induction events using List.reverseRecOn with
  | nil => exact hstart
  | append_singleton events a ih =>
    rw [run_snoc]
    exact hstep _ a ih

end RemotierSync.History
