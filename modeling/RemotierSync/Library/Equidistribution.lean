import Mathlib.Data.Set.Card
import Mathlib.SetTheory.Cardinal.Finite
import Mathlib.Tactic.Common

/-!
# Evenly distributed functions

A function from a finite type takes its values evenly if every value has as many arguments behind
it as every other: the values of a uniform argument are then uniform. Reading one component of a
pair is even, arguments can be renamed by an equivalence, and an injective function of the values
changes nothing.
-/

namespace RemotierSync.Equidistribution

variable {α α' β γ δ : Type*}

def Evenly (f : α → β) (n : ℕ) : Prop := ∀ b ∈ Set.range f, {a | f a = b}.ncard = n

theorem evenly_fst : Evenly (Prod.fst : β × γ → β) (Nat.card γ) := by
  rintro b -
  have hfiber : {p : β × γ | p.1 = b} = Set.range (fun c => (b, c)) := by
    ext ⟨b', c⟩
    simp [eq_comm]
  rw [hfiber, Set.ncard_range_of_injective]
  exact fun c c' h => (Prod.mk.inj h).2

theorem Evenly.comp_equiv {f : α → β} {n : ℕ} (h : Evenly f n) (e : α' ≃ α) :
    Evenly (f ∘ e) n := by
  intro b hb
  rw [e.surjective.range_comp] at hb
  rw [← h b hb]
  exact Set.ncard_preimage_of_injective_subset_range (s := {a | f a = b}) e.injective (by simp)

theorem Evenly.injective_comp {f : α → β} {n : ℕ} (h : Evenly f n) {g : β → δ}
    (hg : Function.Injective g) : Evenly (g ∘ f) n := by
  rintro _ ⟨a, rfl⟩
  rw [← h (f a) ⟨a, rfl⟩]
  simp [hg.eq_iff]

theorem ncard_range_fst [Nonempty γ] : (Set.range (Prod.fst : β × γ → β)).ncard = Nat.card β := by
  rw [Prod.fst_surjective.range_eq, Set.ncard_univ]

theorem ncard_range_injective_comp {f : α → β} {g : β → δ} (hg : Function.Injective g) :
    (Set.range (g ∘ f)).ncard = (Set.range f).ncard := by
  rw [Set.range_comp, Set.ncard_image_of_injective _ hg]

end RemotierSync.Equidistribution
