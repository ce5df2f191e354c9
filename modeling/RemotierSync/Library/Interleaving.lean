import RemotierSync.Library.Program
import RemotierSync.Library.History

/-!
# Programs that take turns

Several programs run against one store. A turn makes the next call of one of them, so any two
calls of a program may have calls of others between them. What is true of a program at every
call it can still make stays true of what a turn leaves of it (`everywhere_turn`), and a program
that asks one question before it acts on the answer has asked it once (`unasked_or_asked`).
-/

namespace RemotierSync

namespace Program

variable {Op : Type} {Ret : Op → Type} {ε α β σ : Type}

def next? : Program Op Ret ε α → Option Op
  | .call op _ => some op
  | _ => none

def succeeded : Program Op Ret ε α → Bool
  | .pure _ => true
  | _ => false

variable (exec : (op : Op) → σ → Except ε (Ret op) × σ)

/-- What is left of a program after its next call, with the store the call leaves. -/
def advance : Program Op Ret ε α → σ → Program Op Ret ε α × σ
  | .call op next, s =>
    match exec op s with
    | (.ok r, s') => (next r, s')
    | (.error e, s') => (.fail e, s')
  | p, s => (p, s)

variable {exec} {p : Program Op Ret ε α} {op : Op} {next : Ret op → Program Op Ret ε α} {s s' : σ}

theorem next?_eq_some : p.next? = some op ↔ ∃ next, p = .call op next := by
  cases p with
  | pure a => simp [next?]
  | fail e => simp [next?]
  | call op' next =>
    simp only [next?, Option.some.injEq]
    constructor
    · rintro rfl
      exact ⟨next, rfl⟩
    · rintro ⟨next', h⟩
      injection h

theorem advance_of_next?_none (h : p.next? = none) : advance exec p s = (p, s) := by
  cases p with
  | pure a => rfl
  | fail e => rfl
  | call op next => simp [next?] at h

theorem advance_of_ok {r : Ret op} (h : exec op s = (.ok r, s')) :
    advance exec (.call op next) s = (next r, s') := by
  simp only [advance, h]

theorem advance_of_error {e : ε} (h : exec op s = (.error e, s')) :
    advance exec (.call op next : Program Op Ret ε α) s = (.fail e, s') := by
  simp only [advance, h]

theorem advance_call_snd : (advance exec (.call op next) s).2 = (exec op s).2 := by
  rcases h : exec op s with ⟨e | r, s'⟩
  · rw [advance_of_error h]
  · rw [advance_of_ok h]

/-- Every call that the program can still make satisfies `K` together with what follows it, as
long as the answers satisfy `R`. -/
def Everywhere (R : (op : Op) → Ret op → Prop)
    (K : (op : Op) → (Ret op → Program Op Ret ε α) → Prop) : Program Op Ret ε α → Prop
  | .call op next => K op next ∧ ∀ r, R op r → Everywhere R K (next r)
  | _ => True

/-- Until the program makes the call `q` its calls satisfy `K₀`, and after it, answered with `r`,
they satisfy `K r`. -/
def Until (q : Op) (K₀ : Op → Prop) (K : Ret q → Op → Prop) : Program Op Ret ε α → Prop
  | .call op next =>
    (op ≠ q → K₀ op ∧ ∀ r, Until q K₀ K (next r)) ∧
      ∀ h : q = op, ∀ r : Ret q, Issues (K r) (next (h ▸ r))
  | _ => True

section Until

variable {q : Op} {K₀ : Op → Prop} {K : Ret q → Op → Prop}

theorem until_call {next : Ret op → Program Op Ret ε α} (hne : op ≠ q) :
    Until q K₀ K (.call op next) ↔ K₀ op ∧ ∀ r, Until q K₀ K (next r) := by
  rw [Until]
  exact ⟨fun h => h.1 hne, fun h => ⟨fun _ => h, fun heq => absurd heq.symm hne⟩⟩

theorem until_call_self {next : Ret q → Program Op Ret ε α} :
    Until q K₀ K (.call q next) ↔ ∀ r, Issues (K r) (next r) := by
  rw [Until]
  exact ⟨fun h => h.2 rfl, fun h => ⟨fun hne => absurd rfl hne, fun _ => h⟩⟩

end Until

variable {R : (op : Op) → Ret op → Prop} {K : (op : Op) → (Ret op → Program Op Ret ε α) → Prop}

theorem Everywhere.mono {K' : (op : Op) → (Ret op → Program Op Ret ε α) → Prop}
    (h : ∀ op next, K op next → K' op next) (hp : Everywhere R K p) : Everywhere R K' p := by
  induction p with
  | pure a => trivial
  | fail e => trivial
  | call op next ih => exact ⟨h op next hp.1, fun r hr => ih r (hp.2 r hr)⟩

theorem everywhere_of_issues {K' : Op → Prop} (h : ∀ op next, K' op → K op next)
    (hp : Issues K' p) : Everywhere R K p := by
  induction p with
  | pure a => trivial
  | fail e => trivial
  | call op next ih => exact ⟨h op next hp.1, fun r _ => ih r (hp.2 r)⟩

theorem everywhere_discard {K : Op → Prop} (hp : Everywhere R (fun op _ => K op) p) :
    Everywhere R (fun op _ => K op) (discard p) := by
  change Everywhere R _ (bind p _)
  induction p with
  | pure a => trivial
  | fail e => trivial
  | call op next ih => exact ⟨hp.1, fun r hr => ih r (hp.2 r hr)⟩

theorem everywhere_advance (hR : ∀ op s r, (exec op s).1 = .ok r → R op r)
    (hp : Everywhere R K p) : Everywhere R K (advance exec p s).1 := by
  cases p with
  | pure a => trivial
  | fail e => trivial
  | call op next =>
    rcases h : exec op s with ⟨e | r, s'⟩
    · rw [advance_of_error h]
      trivial
    · rw [advance_of_ok h]
      exact hp.2 r (hR op s r (by rw [h]))

end Program

/-- A store and what is left of each of the programs that share it. -/
structure Pool (ι : Type) (Op : Type) (Ret : Op → Type) (ε σ : Type) where
  store : σ
  tasks : ι → Program Op Ret ε Unit

/-- The task whose turn it is, and what the store is told beside the call. -/
structure Turn (ι τ : Type) where
  task : ι
  input : τ

namespace Pool

open Program

variable {ι Op ε σ τ : Type} {Ret : Op → Type} [DecidableEq ι]
  (exec : τ → (op : Op) → σ → Except ε (Ret op) × σ)

def turn (s : Pool ι Op Ret ε σ) (t : Turn ι τ) : Pool ι Op Ret ε σ :=
  let (p, store) := advance (exec t.input) (s.tasks t.task) s.store
  { store := store, tasks := Function.update s.tasks t.task p }

omit [DecidableEq ι] in
def Makes (i : ι) (op : Op) (s : Pool ι Op Ret ε σ) (t : Turn ι τ) : Prop :=
  t.task = i ∧ (s.tasks i).next? = some op

variable {exec} {s : Pool ι Op Ret ε σ} {t : Turn ι τ} {i : ι} {op : Op}

omit [DecidableEq ι] in
theorem Makes.unique {op' : Op} (h : Makes i op s t) (h' : Makes i op' s t) : op' = op :=
  Option.some.inj (h'.2.symm.trans h.2)

omit [DecidableEq ι] in
theorem Makes.exists_call (h : Makes i op s t) : ∃ next, s.tasks i = .call op next :=
  next?_eq_some.mp h.2

theorem turn_store :
    (turn exec s t).store = (advance (exec t.input) (s.tasks t.task) s.store).2 := rfl

theorem turn_task :
    (turn exec s t).tasks t.task = (advance (exec t.input) (s.tasks t.task) s.store).1 :=
  Function.update_self ..

theorem turn_task_of_ne (h : i ≠ t.task) : (turn exec s t).tasks i = s.tasks i :=
  Function.update_of_ne h ..

theorem turn_task_of_next?_none (h : (s.tasks i).next? = none) :
    (turn exec s t).tasks i = s.tasks i := by
  by_cases hi : i = t.task
  · subst hi
    rw [turn_task, advance_of_next?_none h]
  · exact turn_task_of_ne hi

theorem turn_store_of_next?_none (h : (s.tasks t.task).next? = none) :
    (turn exec s t).store = s.store := by
  rw [turn_store, advance_of_next?_none h]

theorem turn_store_of_makes (h : Makes i op s t) :
    (turn exec s t).store = (exec t.input op s.store).2 := by
  obtain ⟨rfl, hnext⟩ := h
  obtain ⟨next, hp⟩ := next?_eq_some.mp hnext
  rw [turn_store, hp, advance_call_snd]

theorem turn_task_of_ok (h : Makes i op s t) {next : Ret op → Program Op Ret ε Unit}
    (hp : s.tasks i = .call op next) {r : Ret op} (hr : (exec t.input op s.store).1 = .ok r) :
    (turn exec s t).tasks i = next r := by
  obtain ⟨rfl, _⟩ := h
  rw [turn_task, hp, advance_of_ok (Prod.ext hr rfl)]

theorem turn_task_cases (s : Pool ι Op Ret ε σ) (t : Turn ι τ) (i : ι) :
    (turn exec s t).tasks i = s.tasks i ∨
      ∃ op next, Makes i op s t ∧ s.tasks i = .call op next ∧
        ((∃ r, (exec t.input op s.store).1 = .ok r ∧ (turn exec s t).tasks i = next r) ∨
          ∃ e, (exec t.input op s.store).1 = .error e ∧ (turn exec s t).tasks i = .fail e) := by
  cases hnext : (s.tasks i).next? with
  | none => exact Or.inl (turn_task_of_next?_none hnext)
  | some op =>
    by_cases hi : i = t.task
    · subst hi
      obtain ⟨next, hp⟩ := next?_eq_some.mp hnext
      refine Or.inr ⟨op, next, ⟨rfl, hnext⟩, hp, ?_⟩
      rw [turn_task, hp]
      rcases h : exec t.input op s.store with ⟨e | r, store⟩
      · rw [advance_of_error h]
        exact Or.inr ⟨e, rfl, rfl⟩
      · rw [advance_of_ok h]
        exact Or.inl ⟨r, rfl, rfl⟩
    · exact Or.inl (turn_task_of_ne hi)

/-- What holds of a task at every call it can still make holds after every turn. -/
theorem everywhere_turn {R : (op : Op) → Ret op → Prop}
    {K : (op : Op) → (Ret op → Program Op Ret ε Unit) → Prop}
    (hR : ∀ x op s r, (exec x op s).1 = .ok r → R op r) (h : Everywhere R K (s.tasks i)) :
    Everywhere R K ((turn exec s t).tasks i) := by
  by_cases hi : i = t.task
  · subst hi
    rw [turn_task]
    exact everywhere_advance (hR t.input) h
  · rwa [turn_task_of_ne hi]

theorem issues_turn {K : Op → Prop} (h : Issues K (s.tasks i)) :
    Issues K ((turn exec s t).tasks i) := by
  rcases turn_task_cases s t i with
    hsame | ⟨op, next, _, hp, ⟨r, _, hnext⟩ | ⟨e, _, hnext⟩⟩
  · rwa [hsame]
  · rw [hp] at h
    rw [hnext]
    exact h.2 r
  · rw [hnext]
    trivial

/-- A task has not made its call, or it has made it once and got one answer. -/
theorem unasked_or_asked {q : Op} {K₀ : Op → Prop} {K : Ret q → Op → Prop}
    (hanswer : ∀ x s, ∃ r, (exec x q s).1 = .ok r) (hq : ∀ r, ¬ K r q)
    (h : Until q K₀ K (s.tasks i)) (turns : List (Turn ι τ)) :
    (¬ History.Occurred (turn exec) s (Makes i q) turns ∧
        Until q K₀ K ((History.run (turn exec) s turns).tasks i)) ∨
      ∃ r, Issues (K r) ((History.run (turn exec) s turns).tasks i) ∧
        History.Occurred (turn exec) s (Makes i q) turns ∧
        History.Always (turn exec) s
          (fun s t => Makes i q s t → (exec t.input q s.store).1 = .ok r) turns := by
  induction turns using List.reverseRecOn with
  | nil => exact Or.inl ⟨History.not_occurred_nil, h⟩
  | append_singleton turns t ih =>
    rw [History.run_snoc, History.occurred_snoc]
    rcases ih with ⟨hnever, huntil⟩ | ⟨r, hissues, hasked, hanswers⟩
    · by_cases hnow : Makes i q (History.run (turn exec) s turns) t
      · obtain ⟨next, hp⟩ := hnow.exists_call
        obtain ⟨r, hr⟩ := hanswer t.input (History.run (turn exec) s turns).store
        rw [hp, until_call_self] at huntil
        refine Or.inr ⟨r, ?_, Or.inr hnow, History.always_snoc.mpr ⟨?_, fun _ => hr⟩⟩
        · rw [turn_task_of_ok hnow hp hr]
          exact huntil r
        · exact fun before t after hsplit hmakes => absurd ⟨before, t, after, hsplit, hmakes⟩ hnever
      · refine Or.inl ⟨not_or.mpr ⟨hnever, hnow⟩, ?_⟩
        rcases turn_task_cases (History.run (turn exec) s turns) t i with
          hsame | ⟨op, next, hmakes, hp, ⟨r, _, hnext⟩ | ⟨e, _, hnext⟩⟩
        · rwa [hsame]
        · have hne : op ≠ q := by
            rintro rfl
            exact hnow hmakes
          rw [hp, until_call hne] at huntil
          rw [hnext]
          exact huntil.2 r
        · rw [hnext]
          trivial
    · refine Or.inr ⟨r, issues_turn hissues, Or.inl hasked, History.always_snoc.mpr ⟨hanswers, ?_⟩⟩
      intro hmakes
      obtain ⟨next, hp⟩ := hmakes.exists_call
      rw [hp] at hissues
      exact absurd hissues.1 (hq r)

end Pool
end RemotierSync
