import Mathlib.Data.List.Basic
import Mathlib.Algebra.Order.Ring.Int
import Mathlib.Tactic.Common

/-!
# Fields in one byte string

A separated field can be read back when the separator does not occur in it, and a field of fixed
width always can. When the separator may occur, two ways to read one string differ by what the
longer first field takes from the rest of the other (`append_sep_eq_iff`).
-/

namespace RemotierSync.Framing

variable {α : Type*} {sep : α} {front front' back back' : List α}

/-- One string read as two fields in two ways: the same fields, or one first field goes on into
the rest of the other. -/
theorem append_sep_eq_iff :
    front ++ sep :: back = front' ++ sep :: back' ↔
      (front = front' ∧ back = back') ∨
        (∃ rest, front' = front ++ sep :: rest ∧ back = rest ++ sep :: back') ∨
        ∃ rest, front = front' ++ sep :: rest ∧ back' = rest ++ sep :: back := by
  constructor
  · intro h
    rcases List.append_eq_append_iff.mp h with ⟨more, hfront, hback⟩ | ⟨more, hfront, hback⟩
    · cases more with
      | nil =>
        rw [List.append_nil] at hfront
        rw [List.nil_append] at hback
        exact Or.inl ⟨hfront.symm, (List.cons.inj hback).2⟩
      | cons a rest =>
        obtain ⟨rfl, hrest⟩ := List.cons.inj hback
        exact Or.inr (Or.inl ⟨rest, hfront, hrest⟩)
    · cases more with
      | nil =>
        rw [List.append_nil] at hfront
        rw [List.nil_append] at hback
        exact Or.inl ⟨hfront, (List.cons.inj hback).2.symm⟩
      | cons a rest =>
        obtain ⟨rfl, hrest⟩ := List.cons.inj hback
        exact Or.inr (Or.inr ⟨rest, hfront, hrest⟩)
  · rintro (⟨rfl, rfl⟩ | ⟨rest, rfl, rfl⟩ | ⟨rest, rfl, rfl⟩)
    · rfl
    · simp
    · simp

theorem append_sep_inj (h : sep ∉ front) (h' : sep ∉ front') :
    front ++ sep :: back = front' ++ sep :: back' ↔ front = front' ∧ back = back' := by
  rw [append_sep_eq_iff]
  constructor
  · rintro (hsame | ⟨rest, rfl, _⟩ | ⟨rest, rfl, _⟩)
    · exact hsame
    · exact absurd (by simp) h'
    · exact absurd (by simp) h
  · exact Or.inl

/-! ## Numbers of fixed width -/

/-- The last `width` base-256 digits of a number, the most significant one first. -/
def bigEndian : ℕ → ℕ → List UInt8
  | 0, _ => []
  | width + 1, n => bigEndian width (n / 256) ++ [UInt8.ofNat n]

theorem length_bigEndian (width n : ℕ) : (bigEndian width n).length = width := by
  induction width generalizing n with
  | zero => rfl
  | succ width ih => rw [bigEndian, List.length_append, ih, List.length_singleton]

theorem bigEndian_inj {width n n' : ℕ} (hn : n < 256 ^ width) (hn' : n' < 256 ^ width)
    (h : bigEndian width n = bigEndian width n') : n = n' := by
  induction width generalizing n n' with
  | zero => omega
  | succ width ih =>
    rw [pow_succ] at hn hn'
    obtain ⟨hinit, hlast⟩ := List.append_inj' h rfl
    have hdiv : n / 256 = n' / 256 :=
      ih (Nat.div_lt_of_lt_mul (by omega)) (Nat.div_lt_of_lt_mul (by omega)) hinit
    have hmod : n % 256 = n' % 256 := by
      have hbyte := congrArg UInt8.toNat (List.cons.inj hlast).1
      rwa [UInt8.toNat_ofNat', UInt8.toNat_ofNat'] at hbyte
    omega

end RemotierSync.Framing
