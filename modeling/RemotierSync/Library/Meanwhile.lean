import RemotierSync.Library.Program

/-!
# Programs and what happens meanwhile

Between the calls of a program others act on its store. `Among` collects what a program can return
and leave while they do, act by act. Two programs are `Alike` under an invariant of the store if
they return and leave the same among the same acts. A call whose answer the invariant fixes, and
that leaves the store as it is, can be replaced by its answer (`alike_of_known`), so a program that
remembers such answers is like one that asks again.
-/

namespace RemotierSync.Program

variable {Op : Type} {Ret : Op → Type} {ε α σ τ : Type}

/-- The program, carried out among the acts, returns a result and leaves a state. -/
inductive Among (exec : (op : Op) → σ → Except ε (Ret op) × σ) (acts : σ → τ → σ → Prop) :
    Program Op Ret ε α → σ → List τ → Except ε α → σ → Prop where
  | pure (a : α) (s : σ) : Among exec acts (.pure a) s [] (.ok a) s
  | fail (e : ε) (s : σ) : Among exec acts (.fail e) s [] (.error e) s
  | ok {op : Op} {next : Ret op → Program Op Ret ε α} {r : Ret op} {s s₁ s' : σ} {l : List τ}
      {res : Except ε α} (h : exec op s = (.ok r, s₁))
      (rest : Among exec acts (next r) s₁ l res s') : Among exec acts (.call op next) s l res s'
  | error {op : Op} {next : Ret op → Program Op Ret ε α} {e : ε} {s s₁ s' : σ} {l : List τ}
      {res : Except ε α} (h : exec op s = (.error e, s₁))
      (rest : Among exec acts (.fail e) s₁ l res s') : Among exec acts (.call op next) s l res s'
  | other {p : Program Op Ret ε α} {a : τ} {s s₁ s' : σ} {l : List τ} {res : Except ε α}
      (h : acts s a s₁) (rest : Among exec acts p s₁ l res s') : Among exec acts p s (a :: l) res s'

variable (exec : (op : Op) → σ → Except ε (Ret op) × σ) (acts : σ → τ → σ → Prop) (I : σ → Prop)

/-- From the states of the invariant the programs return and leave the same among the same acts. -/
def Alike (p q : Program Op Ret ε α) : Prop :=
  ∀ s, I s → ∀ l res s', Among exec acts p s l res s' ↔ Among exec acts q s l res s'

variable {exec} {acts} {I} {p q : Program Op Ret ε α} {s s' : σ} {l : List τ} {res : Except ε α}
  {op : Op} {next next' : Ret op → Program Op Ret ε α}

theorem among_nil_iff : Among exec acts p s [] res s' ↔ run exec p s = (res, s') := by
  constructor
  · generalize hl : ([] : List τ) = l
    intro h
    induction h with
    | pure a s => rfl
    | fail e s => rfl
    | ok h rest ih => simp only [run, h, ih hl]
    | error h rest ih =>
      obtain rfl := hl
      cases rest
      simp only [run, h]
    | other h rest ih => cases hl
  · intro h
    induction p generalizing s with
    | pure a =>
      obtain ⟨rfl, rfl⟩ := Prod.mk.inj h
      exact .pure a s
    | fail e =>
      obtain ⟨rfl, rfl⟩ := Prod.mk.inj h
      exact .fail e s
    | call op next ih =>
      rcases hop : exec op s with ⟨e | r, s₁⟩
      · simp only [run, hop] at h
        obtain ⟨rfl, rfl⟩ := Prod.mk.inj h
        exact .error hop (.fail e s₁)
      · simp only [run, hop] at h
        exact .ok hop (ih r h)

theorem Alike.refl (p : Program Op Ret ε α) : Alike exec acts I p p := fun _ _ _ _ _ => Iff.rfl

theorem Alike.symm (h : Alike exec acts I p q) : Alike exec acts I q p :=
  fun s hs l res s' => (h s hs l res s').symm

theorem Alike.trans {p' : Program Op Ret ε α} (h : Alike exec acts I p q)
    (h' : Alike exec acts I q p') : Alike exec acts I p p' :=
  fun s hs l res s' => (h s hs l res s').trans (h' s hs l res s')

/-- Programs that are alike run alike. -/
theorem Alike.run_eq (h : Alike exec acts I p q) (hs : I s) : run exec p s = run exec q s :=
  (among_nil_iff.mp ((h s hs [] _ _).mp (among_nil_iff.mpr rfl))).symm

section Calls

variable (hacts : ∀ s a s', I s → acts s a s' → I s')

include hacts

theorem alike_call (hop : ∀ s, I s → I (exec op s).2)
    (h : ∀ r, Alike exec acts I (next r) (next' r)) :
    Alike exec acts I (.call op next) (.call op next') := by
  have himp {next next' : Ret op → Program Op Ret ε α}
      (h : ∀ r, Alike exec acts I (next r) (next' r)) (s : σ) (hs : I s) (l : List τ)
      (res : Except ε α) (s' : σ) (hamong : Among exec acts (.call op next) s l res s') :
      Among exec acts (.call op next') s l res s' := by
    generalize hp : Program.call op next = p at hamong
    induction hamong with
    | pure a s => cases hp
    | fail e s => cases hp
    | @ok op' next r s s₁ s' l res hexec rest ih =>
      cases hp
      have hs₁ := hop s hs
      rw [hexec] at hs₁
      exact .ok hexec ((h r s₁ hs₁ l res s').mp rest)
    | error hexec rest ih =>
      cases hp
      exact .error hexec rest
    | other hact rest ih => exact .other hact (ih (hacts _ _ _ hs hact) hp)
  exact fun s hs l res s' => ⟨himp h s hs l res s', himp (fun r => (h r).symm) s hs l res s'⟩

theorem alike_of_known {r : Ret op} (hop : ∀ s, I s → exec op s = (.ok r, s)) :
    Alike exec acts I (.call op next) (next r) := by
  intro s hs l res s'
  constructor
  · intro hamong
    generalize hp : Program.call op next = p at hamong
    induction hamong with
    | pure a s => cases hp
    | fail e s => cases hp
    | @ok op' next' r' s s₁ s' l res hexec rest ih =>
      cases hp
      obtain ⟨hr, rfl⟩ := Prod.mk.inj ((hop s hs).symm.trans hexec)
      obtain rfl := Except.ok.inj hr
      exact rest
    | error hexec rest ih =>
      cases hp
      rw [hop _ hs] at hexec
      cases (Prod.mk.inj hexec).1
    | other hact rest ih => exact .other hact (ih (hacts _ _ _ hs hact) hp)
  · exact .ok (hop s hs)

end Calls

end RemotierSync.Program
