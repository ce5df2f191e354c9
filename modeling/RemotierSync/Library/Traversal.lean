import Mathlib.Data.List.Basic

/-!
# Visiting a list in turn

Each element of a list is visited in the state the elements before it have left, and answers, or
stops the traversal with an error. `visits_append` cuts a traversal in two, so that an element
whose visit leaves the state as it was can be taken out of the list: the others answer what they
did.
-/

namespace RemotierSync.Traversal

variable {α β ε σ : Type*}

def visitAll (visit : α → σ → Except ε β × σ) : List α → σ → Except ε (List β) × σ
  | [], s => (.ok [], s)
  | a :: rest, s =>
    match visit a s with
    | (.error err, s') => (.error err, s')
    | (.ok b, s') =>
      ((visitAll visit rest s').1.map (fun bs => b :: bs), (visitAll visit rest s').2)

/-- The traversal reaches the end of the list, with these answers. -/
def Visits (visit : α → σ → Except ε β × σ) (l : List α) (s : σ) (bs : List β) (s' : σ) : Prop :=
  visitAll visit l s = (.ok bs, s')

variable {visit : α → σ → Except ε β × σ} {l before after : List α} {a : α} {s s' : σ}
  {bs : List β} {b : β}

theorem visits_nil : Visits visit [] s bs s' ↔ bs = [] ∧ s' = s := by
  unfold Visits
  rw [visitAll, Prod.mk.injEq, Except.ok.injEq, eq_comm (a := ([] : List β)), eq_comm (a := s)]

theorem visits_cons : Visits visit (a :: l) s bs s' ↔
    ∃ b bs' s₁, visit a s = (.ok b, s₁) ∧ Visits visit l s₁ bs' s' ∧ bs = b :: bs' := by
  unfold Visits
  constructor
  · intro h
    rw [visitAll] at h
    rcases ha : visit a s with ⟨err | b, s₁⟩
    · simp [ha] at h
    · rcases hl : visitAll visit l s₁ with ⟨err | bs', s₂⟩
      · simp [ha, hl, Except.map] at h
      · simp only [ha, hl, Except.map, Prod.mk.injEq, Except.ok.injEq] at h
        exact ⟨b, bs', s₁, rfl, by rw [hl, h.2], h.1.symm⟩
  · rintro ⟨b, bs', s₁, ha, hl, rfl⟩
    simp only [visitAll, ha, hl, Except.map]

/-- What each visit preserves, a traversal preserves. -/
theorem visitAll_invariant {I : σ → Prop} (hvisit : ∀ a s, I s → I (visit a s).2) (l : List α)
    (hs : I s) : I (visitAll visit l s).2 := by
  induction l generalizing s with
  | nil => exact hs
  | cons a l ih =>
    have hnext := hvisit a s hs
    rcases ha : visit a s with ⟨err | b, s₁⟩ <;> rw [ha] at hnext <;> simp only [visitAll, ha]
    · exact hnext
    · exact ih hnext

theorem Visits.length_eq (h : Visits visit l s bs s') : bs.length = l.length := by
  induction l generalizing s bs with
  | nil =>
    obtain ⟨rfl, _⟩ := visits_nil.mp h
    rfl
  | cons a l ih =>
    obtain ⟨b, bs', s₁, _, hl, rfl⟩ := visits_cons.mp h
    rw [List.length_cons, List.length_cons, ih hl]

theorem visits_append : Visits visit (before ++ after) s bs s' ↔
    ∃ bs₁ bs₂ s₁, Visits visit before s bs₁ s₁ ∧ Visits visit after s₁ bs₂ s' ∧
      bs = bs₁ ++ bs₂ := by
  induction before generalizing s bs with
  | nil =>
    constructor
    · intro h
      exact ⟨[], bs, s, visits_nil.mpr ⟨rfl, rfl⟩, h, rfl⟩
    · rintro ⟨bs₁, bs₂, s₁, h₁, h₂, rfl⟩
      obtain ⟨rfl, rfl⟩ := visits_nil.mp h₁
      exact h₂
  | cons a before ih =>
    rw [List.cons_append, visits_cons]
    constructor
    · rintro ⟨b, bs', s₁, ha, hrest, rfl⟩
      obtain ⟨bs₁, bs₂, s₂, h₁, h₂, rfl⟩ := ih.mp hrest
      exact ⟨b :: bs₁, bs₂, s₂, visits_cons.mpr ⟨b, bs₁, s₁, ha, h₁, rfl⟩, h₂, rfl⟩
    · rintro ⟨bs₁, bs₂, s₂, h₁, h₂, rfl⟩
      obtain ⟨b, bs₁', s₁, ha, h₁', rfl⟩ := visits_cons.mp h₁
      exact ⟨b, bs₁' ++ bs₂, s₁, ha, ih.mpr ⟨bs₁', bs₂, s₂, h₁', h₂, rfl⟩, rfl⟩

theorem visits_split : Visits visit (before ++ a :: after) s bs s' ↔
    ∃ bs₁ b bs₂ s₁ s₂, Visits visit before s bs₁ s₁ ∧ visit a s₁ = (.ok b, s₂) ∧
      Visits visit after s₂ bs₂ s' ∧ bs = bs₁ ++ b :: bs₂ := by
  rw [visits_append]
  constructor
  · rintro ⟨bs₁, bs', s₁, h₁, hrest, rfl⟩
    obtain ⟨b, bs₂, s₂, ha, h₂, rfl⟩ := visits_cons.mp hrest
    exact ⟨bs₁, b, bs₂, s₁, s₂, h₁, ha, h₂, rfl⟩
  · rintro ⟨bs₁, b, bs₂, s₁, s₂, h₁, ha, h₂, rfl⟩
    exact ⟨bs₁, b :: bs₂, s₁, h₁, visits_cons.mpr ⟨b, bs₂, s₂, ha, h₂, rfl⟩, rfl⟩

theorem Visits.of_mem_zip (h : Visits visit l s bs s') (hmem : (a, b) ∈ l.zip bs) :
    ∃ before bs₁ s₁ s₂, Visits visit before s bs₁ s₁ ∧ visit a s₁ = (.ok b, s₂) := by
  induction l generalizing s bs with
  | nil => simp at hmem
  | cons x l ih =>
    obtain ⟨y, bs', s₁, hx, hrest, rfl⟩ := visits_cons.mp h
    rw [List.zip_cons_cons, List.mem_cons] at hmem
    rcases hmem with heq | hmem
    · obtain ⟨rfl, rfl⟩ := Prod.mk.inj heq
      exact ⟨[], [], s, s₁, visits_nil.mpr ⟨rfl, rfl⟩, hx⟩
    · obtain ⟨before, bs₁, s₂, s₃, hbefore, ha⟩ := ih hrest hmem
      exact ⟨x :: before, y :: bs₁, s₂, s₃, visits_cons.mpr ⟨y, bs₁, s₁, hx, hbefore, rfl⟩, ha⟩

end RemotierSync.Traversal
