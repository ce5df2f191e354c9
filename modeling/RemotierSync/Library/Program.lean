import Mathlib.Tactic.Common

/-!
# Programs of calls on a store

A `Program` is a computation that may stop with an error and reaches its store through calls
only. It says nothing about what a call does: `run` carries it out alone, call after call,
against an interpretation of the calls, and stops at the first call that fails. What a run
preserves follows from what each call preserves (`run_invariant`), and a program that issues
only calls of one kind changes only what these calls change (`run_invariant_of_issues`).
-/

namespace RemotierSync

inductive Program (Op : Type) (Ret : Op → Type) (ε α : Type) where
  | pure (a : α)
  | fail (e : ε)
  | call (op : Op) (next : Ret op → Program Op Ret ε α)

namespace Program

variable {Op : Type} {Ret : Op → Type} {ε α β σ : Type}

def bind : Program Op Ret ε α → (α → Program Op Ret ε β) → Program Op Ret ε β
  | .pure a, f => f a
  | .fail e, _ => .fail e
  | .call op next, f => .call op (fun r => bind (next r) f)

instance : Monad (Program Op Ret ε) where
  pure := .pure
  bind := bind

def perform (op : Op) : Program Op Ret ε (Ret op) := .call op .pure

variable (exec : (op : Op) → σ → Except ε (Ret op) × σ)

def run : Program Op Ret ε α → σ → Except ε α × σ
  | .pure a, s => (.ok a, s)
  | .fail e, s => (.error e, s)
  | .call op next, s =>
    match exec op s with
    | (.ok r, s') => run (next r) s'
    | (.error e, s') => (.error e, s')

@[simp] theorem run_pure (a : α) (s : σ) :
    run exec (Pure.pure a : Program Op Ret ε α) s = (.ok a, s) := rfl

@[simp] theorem run_fail (e : ε) (s : σ) :
    run exec (.fail e : Program Op Ret ε α) s = (.error e, s) := rfl

theorem run_perform (op : Op) (s : σ) : run exec (perform op) s = exec op s := by
  rcases h : exec op s with ⟨r | r, s'⟩ <;> simp [perform, run, h]

theorem run_bind (p : Program Op Ret ε α) (f : α → Program Op Ret ε β) (s : σ) :
    run exec (p >>= f) s =
      match run exec p s with
      | (.ok a, s') => run exec (f a) s'
      | (.error e, s') => (.error e, s') := by
  change run exec (bind p f) s = _
  induction p generalizing s with
  | pure a => rfl
  | fail e => rfl
  | call op next ih =>
    rcases h : exec op s with ⟨r | r, s'⟩
    · simp only [bind, run, h]
    · simp only [bind, run, h, ih]

theorem run_bind_ok {p : Program Op Ret ε α} {f : α → Program Op Ret ε β} {s s' : σ} {a : α}
    (h : run exec p s = (.ok a, s')) : run exec (p >>= f) s = run exec (f a) s' := by
  rw [run_bind, h]

theorem run_bind_error {p : Program Op Ret ε α} {f : α → Program Op Ret ε β} {s s' : σ} {e : ε}
    (h : run exec p s = (.error e, s')) : run exec (p >>= f) s = (.error e, s') := by
  rw [run_bind, h]

theorem bind_assoc {γ : Type} (p : Program Op Ret ε α) (f : α → Program Op Ret ε β)
    (g : β → Program Op Ret ε γ) : (p >>= f) >>= g = p >>= fun a => f a >>= g := by
  change bind (bind p f) g = bind p (fun a => bind (f a) g)
  induction p with
  | pure a => rfl
  | fail e => rfl
  | call op next ih => simp only [bind, ih]

/-- Every call the program may issue, on any branch, satisfies `K`. -/
def Issues (K : Op → Prop) : Program Op Ret ε α → Prop
  | .pure _ => True
  | .fail _ => True
  | .call op next => K op ∧ ∀ r, Issues K (next r)

@[simp] theorem issues_pure (K : Op → Prop) (a : α) :
    Issues K (Pure.pure a : Program Op Ret ε α) := trivial

@[simp] theorem issues_fail (K : Op → Prop) (e : ε) :
    Issues K (.fail e : Program Op Ret ε α) := trivial

@[simp] theorem issues_perform (K : Op → Prop) (op : Op) :
    Issues K (perform op : Program Op Ret ε (Ret op)) ↔ K op := by
  simp [perform, Issues]

theorem issues_bind {K : Op → Prop} {p : Program Op Ret ε α} {f : α → Program Op Ret ε β}
    (hp : Issues K p) (hf : ∀ a, Issues K (f a)) : Issues K (p >>= f) := by
  change Issues K (bind p f)
  induction p with
  | pure a => exact hf a
  | fail e => trivial
  | call op next ih => exact ⟨hp.1, fun r => ih r (hp.2 r)⟩

theorem Issues.mono {K K' : Op → Prop} (h : ∀ op, K op → K' op) {p : Program Op Ret ε α}
    (hp : Issues K p) : Issues K' p := by
  induction p with
  | pure a => trivial
  | fail e => trivial
  | call op next ih => exact ⟨h op hp.1, fun r => ih r (hp.2 r)⟩

theorem run_bind_pure (p : Program Op Ret ε α) (f : α → β) (s : σ) :
    run exec (p >>= fun a => Pure.pure (f a)) s = ((run exec p s).1.map f, (run exec p s).2) := by
  rw [run_bind]
  rcases run exec p s with ⟨e | a, s'⟩ <;> rfl

def FailsWith (E : ε → Prop) : Program Op Ret ε α → Prop
  | .pure _ => True
  | .fail e => E e
  | .call _ next => ∀ r, FailsWith E (next r)

theorem failsWith_bind {E : ε → Prop} {p : Program Op Ret ε α} {f : α → Program Op Ret ε β}
    (hp : FailsWith E p) (hf : ∀ a, FailsWith E (f a)) : FailsWith E (p >>= f) := by
  change FailsWith E (bind p f)
  induction p with
  | pure a => exact hf a
  | fail e => exact hp
  | call op next ih => exact fun r => ih r (hp r)

def discard (p : Program Op Ret ε α) : Program Op Ret ε Unit := p >>= fun _ => Pure.pure ()

theorem issues_discard {K : Op → Prop} {p : Program Op Ret ε α} (hp : Issues K p) :
    Issues K (discard p) :=
  issues_bind hp (fun _ => trivial)

theorem run_discard_snd (p : Program Op Ret ε α) (s : σ) :
    (run exec (discard p) s).2 = (run exec p s).2 := by
  rw [discard, run_bind]
  rcases run exec p s with ⟨e | a, s'⟩ <;> rfl

variable {exec}

/-- A run that succeeds is the same on a store that answers whatever this one answers. -/
theorem run_of_answered {exec' : (op : Op) → σ → Except ε (Ret op) × σ}
    (hexec : ∀ op s r s', exec op s = (.ok r, s') → exec' op s = (.ok r, s'))
    {p : Program Op Ret ε α} {s s' : σ} {a : α} (h : run exec p s = (.ok a, s')) :
    run exec' p s = (.ok a, s') := by
  induction p generalizing s with
  | pure b => exact h
  | fail e => exact h
  | call op next ih =>
    rcases hop : exec op s with ⟨e | r, s''⟩
    · simp only [run, hop] at h
      cases (Prod.mk.inj h).1
    · simp only [run, hop] at h
      simp only [run, hexec op s r s'' hop]
      exact ih r h

theorem error_of_failsWith {K : Op → Prop} {E : ε → Prop}
    (hexec : ∀ op s e, K op → (exec op s).1 = .error e → E e) {p : Program Op Ret ε α}
    (hissues : Issues K p) (hp : FailsWith E p) {s : σ} {e : ε}
    (h : (run exec p s).1 = .error e) : E e := by
  induction p generalizing s with
  | pure a => cases h
  | fail e' =>
    obtain rfl : e' = e := Except.error.inj h
    exact hp
  | call op next ih =>
    rcases hop : exec op s with ⟨r | r, s'⟩
    · simp only [run, hop] at h
      obtain rfl := Except.error.inj h
      exact hexec op s r hissues.1 (congrArg Prod.fst hop)
    · simp only [run, hop] at h
      exact ih r (hissues.2 r) (hp r) h

theorem run_invariant_of_issues {K : Op → Prop} {I : σ → Prop}
    (hexec : ∀ op s, K op → I s → I (exec op s).2) {p : Program Op Ret ε α}
    (hp : Issues K p) {s : σ} (hs : I s) : I (run exec p s).2 := by
  induction p generalizing s with
  | pure a => exact hs
  | fail e => exact hs
  | call op next ih =>
    have hnext := hexec op s hp.1 hs
    rcases h : exec op s with ⟨r | r, s'⟩
    · simpa only [run, h] using hnext
    · simp only [run, h] at hnext ⊢
      exact ih r (hp.2 r) hnext

theorem issues_true (p : Program Op Ret ε α) : Issues (fun _ => True) p := by
  induction p with
  | pure a => trivial
  | fail e => trivial
  | call op next ih => exact ⟨trivial, ih⟩

/-- What every call preserves, every run preserves. -/
theorem run_invariant {I : σ → Prop} (hexec : ∀ op s, I s → I (exec op s).2)
    (p : Program Op Ret ε α) {s : σ} (hs : I s) : I (run exec p s).2 :=
  run_invariant_of_issues (fun op s _ => hexec op s) (issues_true p) hs

/-- A program whose calls all leave a view of the store alone leaves the view alone. -/
theorem run_frame {K : Op → Prop} {β : Type*} {view : σ → β}
    (hexec : ∀ op s, K op → view (exec op s).2 = view s) {p : Program Op Ret ε α}
    (hp : Issues K p) (s : σ) : view (run exec p s).2 = view s :=
  run_invariant_of_issues (I := fun s' => view s' = view s)
    (fun op s' hop hs' => (hexec op s' hop).trans hs') hp rfl

end Program
end RemotierSync
