import RemotierSync.Library.Program

/-!
# Programs on two stores

`Ensures` follows a program call by call: every call it can still make satisfies `K`, as long as
the answers satisfy `R`, and what it returns satisfies `Q`. A program of which this is known keeps
what each of these calls keeps, and run on two stores that answer these calls alike it returns the
same from both (`run_lockstep`).
-/

namespace RemotierSync.Program

variable {Op : Type} {Ret : Op → Type} {ε α β σ τ : Type}

def Ensures (K : Op → Prop) (R : (op : Op) → Ret op → Prop) (Q : α → Prop) :
    Program Op Ret ε α → Prop
  | .pure a => Q a
  | .fail _ => True
  | .call op next => K op ∧ ∀ r, R op r → Ensures K R Q (next r)

variable {K : Op → Prop} {R : (op : Op) → Ret op → Prop} {Q : α → Prop} {Q' : β → Prop}
  {p : Program Op Ret ε α} {f : α → Program Op Ret ε β}

theorem ensures_bind (hp : Ensures K R Q p) (hf : ∀ a, Q a → Ensures K R Q' (f a)) :
    Ensures K R Q' (p >>= f) := by
  change Ensures K R Q' (bind p f)
  induction p with
  | pure a => exact hf a hp
  | fail e => trivial
  | call op next ih => exact ⟨hp.1, fun r hr => ih r (hp.2 r hr)⟩

theorem ensures_map {Q : α → Prop} (g : α → β) (hp : Ensures K R Q p) :
    Ensures K R (fun _ => True) (p >>= fun a => (Pure.pure (g a) : Program Op Ret ε β)) :=
  ensures_bind hp fun _ _ => trivial

variable {exec : (op : Op) → σ → Except ε (Ret op) × σ}
  {exec' : (op : Op) → τ → Except ε (Ret op) × τ} {S : σ → τ → Prop}

/-- Two stores that answer the calls of a program alike, and stay related, carry it out alike. -/
theorem run_lockstep
    (hexec : ∀ op s s', K op → S s s' → (exec op s).1 = (exec' op s').1 ∧
      S (exec op s).2 (exec' op s').2 ∧ ∀ r, (exec op s).1 = .ok r → R op r)
    (hp : Ensures K R Q p) {s : σ} {s' : τ} (hs : S s s') :
    (run exec p s).1 = (run exec' p s').1 ∧ S (run exec p s).2 (run exec' p s').2 := by
  induction p generalizing s s' with
  | pure a => exact ⟨rfl, hs⟩
  | fail e => exact ⟨rfl, hs⟩
  | call op next ih =>
    obtain ⟨hanswer, hnext, hr⟩ := hexec op s s' hp.1 hs
    rcases h : exec op s with ⟨e | r, t⟩
    · rcases h' : exec' op s' with ⟨e' | r', t'⟩
      · rw [h, h'] at hanswer hnext
        simp only [run, h, h']
        exact ⟨congrArg Except.error (Except.error.inj hanswer), hnext⟩
      · rw [h, h'] at hanswer
        cases hanswer
    · rcases h' : exec' op s' with ⟨e' | r', t'⟩
      · rw [h, h'] at hanswer
        cases hanswer
      · rw [h, h'] at hanswer hnext
        obtain rfl : r = r' := Except.ok.inj hanswer
        simp only [run, h, h']
        exact ih r (hp.2 r (hr r (congrArg Prod.fst h))) hnext

theorem run_invariant_of_ensures {I : σ → Prop}
    (hexec : ∀ op s, K op → I s → I (exec op s).2 ∧ ∀ r, (exec op s).1 = .ok r → R op r)
    (hp : Ensures K R Q p) {s : σ} (hs : I s) : I (run exec p s).2 :=
  (run_lockstep (S := fun s s' => s = s' ∧ I s)
    (by
      rintro op s _ hop ⟨rfl, hs⟩
      obtain ⟨hkept, hr⟩ := hexec op s hop hs
      exact ⟨rfl, ⟨rfl, hkept⟩, hr⟩) hp ⟨rfl, hs⟩).2.2

/-- What a program returns to a store that has not gone past a bound. The store is known to be
within it from the end of the run on: a call does not take it back. -/
theorem run_ensures_within {I U : σ → Prop} (hU : ∀ op s, U (exec op s).2 → U s)
    (hexec : ∀ op s, K op → I s → U (exec op s).2 →
      I (exec op s).2 ∧ ∀ r, (exec op s).1 = .ok r → R op r)
    (hp : Ensures K R Q p) {s : σ} (hs : I s) (hend : U (run exec p s).2) :
    I (run exec p s).2 ∧ ∀ a, (run exec p s).1 = .ok a → Q a := by
  have hback (p : Program Op Ret ε α) {s : σ} (h : U (run exec p s).2) : U s := by
    by_contra hs
    exact run_invariant (I := fun s => ¬ U s) (fun op s hs h => hs (hU op s h)) p hs h
  induction p generalizing s with
  | pure a =>
    refine ⟨hs, ?_⟩
    rintro _ ⟨⟩
    exact hp
  | fail e => exact ⟨hs, by rintro _ ⟨⟩⟩
  | call op next ih =>
    rcases h : exec op s with ⟨e | r, s'⟩
    · simp only [run, h] at hend ⊢
      have hkept := (hexec op s hp.1 hs (by rw [h]; exact hend)).1
      rw [h] at hkept
      exact ⟨hkept, by rintro _ ⟨⟩⟩
    · simp only [run, h] at hend ⊢
      obtain ⟨hkept, hr⟩ := hexec op s hp.1 hs (by rw [h]; exact hback (next r) hend)
      rw [h] at hkept
      exact ih r (hp.2 r (hr r (congrArg Prod.fst h))) hkept hend

theorem ensures_of_issues (hp : Issues K p) : Ensures K R (fun _ => True) p := by
  induction p with
  | pure a => trivial
  | fail e => trivial
  | call op next ih => exact ⟨hp.1, fun r _ => ih r (hp.2 r)⟩

end RemotierSync.Program
