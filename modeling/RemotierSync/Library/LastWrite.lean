import Mathlib.Data.List.MinMax

/-!
# Last write wins

Each version of a value carries a clock from a linear order. A replica that starts with nothing
and replaces the version it holds exactly when the next one has the greater clock ends with
`List.argmax clock`, the first version of the greatest clock. When equal clocks mean equal
versions the winner depends only on the set of versions offered, so replicas that receive the
same versions in any order and any number of times agree.
-/

namespace RemotierSync.LastWrite

variable {α β γ : Type*} [LinearOrder γ] (clock : α → γ)

def keep (x y : α) : α := if clock x < clock y then y else x

variable {clock}

theorem argmax_snoc_of_argmax_eq_some {l : List α} {x : α} (h : l.argmax clock = some x) (y : α) :
    (l ++ [y]).argmax clock = some (keep clock x y) := by
  rw [List.argmax_concat, h]
  dsimp only [keep]
  split_ifs <;> rfl

theorem argmax_cons_eq_foldl_keep (x : α) (l : List α) :
    (x :: l).argmax clock = some (l.foldl (keep clock) x) := by
  induction l using List.reverseRecOn with
  | nil => rfl
  | append_singleton l y ih =>
    rw [← List.cons_append, argmax_snoc_of_argmax_eq_some ih, List.foldl_append]
    rfl

theorem exists_argmax_of_mem (clock : α → γ) {l : List α} {y : α} (h : y ∈ l) :
    ∃ x, l.argmax clock = some x := by
  cases h' : l.argmax clock with
  | none => exact absurd (List.argmax_eq_none.mp h') (List.ne_nil_of_mem h)
  | some x => exact ⟨x, rfl⟩

theorem le_of_argmax_eq_some {l : List α} {x y : α} (h : l.argmax clock = some x) (hy : y ∈ l) :
    clock y ≤ clock x :=
  List.le_of_mem_argmax hy h

theorem mem_of_argmax_eq_some {l : List α} {x : α} (h : l.argmax clock = some x) : x ∈ l :=
  List.argmax_mem h

/-- Replicas that were offered the same versions hold the same version. -/
theorem argmax_congr {l l' : List α} (hmem : ∀ x, x ∈ l ↔ x ∈ l')
    (hinj : ∀ x ∈ l, ∀ y ∈ l, clock x = clock y → x = y) :
    l.argmax clock = l'.argmax clock := by
  cases h : l.argmax clock with
  | none =>
    rw [List.argmax_eq_none] at h
    subst h
    cases l' with
    | nil => rfl
    | cons x l' => exact absurd ((hmem x).mpr (by simp)) (by simp)
  | some x =>
    have hx := mem_of_argmax_eq_some h
    obtain ⟨y, hy⟩ : ∃ y, l'.argmax clock = some y :=
      exists_argmax_of_mem clock ((hmem x).mp hx)
    have hyl := (hmem y).mpr (mem_of_argmax_eq_some hy)
    have hle := le_of_argmax_eq_some h hyl
    have hge := le_of_argmax_eq_some hy ((hmem x).mp hx)
    rw [hy, hinj x hx y hyl (le_antisymm hge hle)]

theorem argmax_map {f : β → α} (l : List β) :
    (l.map f).argmax clock = (l.argmax (fun b => clock (f b))).map f := by
  induction l using List.reverseRecOn with
  | nil => rfl
  | append_singleton l y ih =>
    rw [List.map_append, List.map_singleton, List.argmax_concat, List.argmax_concat, ih]
    cases l.argmax (fun b => clock (f b)) with
    | none => rfl
    | some x =>
      dsimp only [Option.map_some]
      split_ifs <;> rfl

end RemotierSync.LastWrite
