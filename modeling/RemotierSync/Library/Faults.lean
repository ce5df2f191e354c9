import RemotierSync.Library.Program

/-!
# Programs whose calls fail

A plan says for every call of a program, counted from the first, whether it is made or meets a
fault. What a call that meets a fault answers and leaves is given beside what the calls do. A
program stops at the first call that fails, with whatever the calls before it have left. What
holds of every state along a run alone therefore holds of what a run with faults leaves
(`runFrom_of_along`), and a program that only its last call changes anything goes through no
state but its first and its last one.
-/

namespace RemotierSync.Program

variable {Op : Type} {Ret : Op → Type} {ε α β σ φ : Type}
  (exec : (op : Op) → σ → Except ε (Ret op) × σ) (fault : φ → (op : Op) → σ → Except ε (Ret op) × σ)
  (plan : ℕ → Option φ)

def attempt (n : ℕ) (op : Op) (s : σ) : Except ε (Ret op) × σ :=
  match plan n with
  | none => exec op s
  | some f => fault f op s

def runFrom : ℕ → Program Op Ret ε α → σ → Except ε α × σ
  | _, .pure a, s => (.ok a, s)
  | _, .fail e, s => (.error e, s)
  | n, .call op next, s =>
    match attempt exec fault plan n op s with
    | (.ok r, s') => runFrom (n + 1) (next r) s'
    | (.error e, s') => (.error e, s')

def Faulty (n count : ℕ) : Prop := ∃ i < count, plan (n + i) ≠ none

instance (n count : ℕ) : Decidable (Faulty plan n count) :=
  have (i : ℕ) : Decidable (plan (n + i) ≠ none) :=
    decidable_of_iff ((plan (n + i)).isSome = true) Option.isSome_iff_ne_none
  inferInstanceAs (Decidable (∃ i < count, plan (n + i) ≠ none))

variable {exec} {fault} {plan} {n count : ℕ} {op : Op} {f : Ret op → Program Op Ret ε α} {s s' : σ}

theorem runFrom_ok {r : Ret op} (hplan : plan n = none) (h : exec op s = (.ok r, s')) :
    runFrom exec fault plan n (perform op >>= f) s = runFrom exec fault plan (n + 1) (f r) s' := by
  change runFrom exec fault plan n (.call op f) s = _
  simp only [runFrom, attempt, hplan, h]

theorem runFrom_error {e : ε} (hplan : plan n = none) (h : exec op s = (.error e, s')) :
    runFrom exec fault plan n (perform op >>= f) s = (.error e, s') := by
  change runFrom exec fault plan n (.call op f) s = _
  simp only [runFrom, attempt, hplan, h]

theorem runFrom_fault {a : φ} {e : ε} (hplan : plan n = some a)
    (h : fault a op s = (.error e, s')) :
    runFrom exec fault plan n (perform op >>= f) s = (.error e, s') := by
  change runFrom exec fault plan n (.call op f) s = _
  simp only [runFrom, attempt, hplan, h]

@[simp] theorem not_faulty_zero : ¬ Faulty plan n 0 := by
  rintro ⟨i, hi, _⟩
  exact absurd hi (Nat.not_lt_zero i)

theorem faulty_succ : Faulty plan n (count + 1) ↔ plan n ≠ none ∨ Faulty plan (n + 1) count := by
  constructor
  · rintro ⟨i, hi, hplan⟩
    cases i with
    | zero => exact Or.inl hplan
    | succ i => exact Or.inr ⟨i, by omega, by rwa [Nat.add_right_comm]⟩
  · rintro (hplan | ⟨i, hi, hplan⟩)
    · exact ⟨0, by omega, hplan⟩
    · exact ⟨i + 1, by omega, by rwa [Nat.add_right_comm] at hplan⟩

section Along

variable (exec) in
/-- Every state that a run goes through satisfies `I`. -/
def Along (I : σ → Prop) : Program Op Ret ε α → σ → Prop
  | .pure _, s => I s
  | .fail _, s => I s
  | .call op next, s => I s ∧ I (exec op s).2 ∧
    ∀ r, (exec op s).1 = .ok r → Along I (next r) (exec op s).2

/-- Every call but the last one satisfies `K`. -/
def AllButLast (K : Op → Prop) : Program Op Ret ε α → Prop
  | .pure _ => True
  | .fail _ => True
  | .call op next =>
    (∀ r, Issues (fun _ => False) (next r)) ∨ (K op ∧ ∀ r, AllButLast K (next r))

variable {I : σ → Prop} {K : Op → Prop} {p : Program Op Ret ε α} {g : α → Program Op Ret ε β}

theorem along_bind (hp : Along exec I p s)
    (hg : ∀ a s', run exec p s = (.ok a, s') → Along exec I (g a) s') :
    Along exec I (p >>= g) s := by
  change Along exec I (bind p g) s
  induction p generalizing s with
  | pure a => exact hg a s rfl
  | fail e => exact hp
  | call op next ih =>
    obtain ⟨hs, hafter, hnext⟩ := hp
    refine ⟨hs, hafter, ?_⟩
    intro r hr
    apply ih r (hnext r hr)
    intro a s' hrun
    apply hg a s'
    have hop : exec op s = (.ok r, (exec op s).2) := Prod.ext hr rfl
    unfold run
    rw [hop]
    exact hrun

/-- A call that fails has changed nothing, or has been carried out and its answer lost. -/
theorem runFrom_of_along
    (hfault : ∀ a op s, ∃ e,
      fault a op s = (.error e, s) ∨ fault a op s = (.error e, (exec op s).2))
    (h : Along exec I p s) : I (runFrom exec fault plan n p s).2 := by
  induction p generalizing n s with
  | pure a => exact h
  | fail e => exact h
  | call op next ih =>
    obtain ⟨hs, hafter, hnext⟩ := h
    unfold runFrom attempt
    rcases hplan : plan n with _ | a
    · rcases hop : exec op s with ⟨e | r, s'⟩ <;> rw [hop] at hafter hnext
      · exact hafter
      · exact ih r (hnext r rfl)
    · obtain ⟨e, hlost | hlost⟩ := hfault a op s <;> simp only [hlost]
      · exact hs
      · exact hafter

theorem run_snd_of_no_calls (hp : Issues (fun _ => False) p) : (run exec p s).2 = s := by
  cases p with
  | pure a => rfl
  | fail e => rfl
  | call op next => exact hp.1.elim

theorem along_of_no_calls (hp : Issues (fun _ => False) p) (hs : I s) : Along exec I p s := by
  cases p with
  | pure a => exact hs
  | fail e => exact hs
  | call op next => exact hp.1.elim

/-- A program whose calls but the last change nothing goes through two states. -/
theorem along_of_allButLast (hK : ∀ op s, K op → (exec op s).2 = s) (hp : AllButLast K p)
    (hs : I s) (hend : I (run exec p s).2) : Along exec I p s := by
  induction p generalizing s with
  | pure a => exact hs
  | fail e => exact hs
  | call op next ih =>
    unfold run at hend
    rcases hop : exec op s with ⟨e | r, s'⟩ <;> simp only [hop] at hend
    · refine ⟨hs, by rwa [hop], ?_⟩
      intro r hr
      rw [hop] at hr
      cases hr
    · have hrest : I s' ∧ Along exec I (next r) s' := by
        rcases hp with hlast | ⟨hop', hnext⟩
        · rw [run_snd_of_no_calls (hlast r)] at hend
          exact ⟨hend, along_of_no_calls (hlast r) hend⟩
        · have hsame := hK op s hop'
          rw [hop] at hsame
          obtain rfl : s' = s := hsame
          exact ⟨hs, ih r (hnext r) hs hend⟩
      refine ⟨hs, by rw [hop]; exact hrest.1, ?_⟩
      intro r' hr
      rw [hop] at hr ⊢
      obtain rfl := Except.ok.inj hr
      exact hrest.2

theorem allButLast_bind (hp : Issues K p) (hg : ∀ a, AllButLast K (g a)) :
    AllButLast K (p >>= g) := by
  change AllButLast K (bind p g)
  induction p with
  | pure a => exact hg a
  | fail e => trivial
  | call op next ih => exact Or.inr ⟨hp.1, fun r => ih r (hp.2 r)⟩

end Along

end RemotierSync.Program
