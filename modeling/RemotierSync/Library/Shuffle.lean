import RemotierSync.Library.Interleaving

/-!
# Programs whose writes are known

A program performs a list of writes if these are the writes it makes, one after the other and
whatever they are answered with, as long as its questions are answered as they should be. When
such programs take turns on a store in which no write fails and none changes the answer to a
question, the store is at every moment the one that a shuffle of their writes leaves, and what
each of them has put into the shuffle is what it has made of its list (`shuffled_run`).
-/

namespace RemotierSync

/-- Which calls are writes, which are questions, and what a question may be answered with. -/
structure Discipline (Op : Type) (Ret : Op → Type) (ω : Type) where
  write : Op → Option ω
  asks : Op → Prop
  answers : (op : Op) → Ret op → Prop

namespace Program

variable {Op : Type} {Ret : Op → Type} {ε α β ω : Type} (d : Discipline Op Ret ω)

def Performs (Q : α → Prop) : Program Op Ret ε α → List ω → Prop
  | .pure a, ws => Q a ∧ ws = []
  | .fail _, _ => False
  | .call op next, ws =>
    (∀ w, d.write op = some w → ∃ rest, ws = w :: rest ∧ ∀ r, Performs Q (next r) rest) ∧
      (d.write op = none → d.asks op ∧ ∀ r, d.answers op r → Performs Q (next r) ws)

variable {d} {Q : α → Prop} {Q' : β → Prop} {op : Op} {w : ω} {ws ws' : List ω}

theorem performs_write {next : Ret op → Program Op Ret ε α} (hop : d.write op = some w)
    (h : ∀ r, Performs d Q (next r) ws) : Performs d Q (.call op next) (w :: ws) := by
  refine ⟨fun w' hw' => ⟨ws, ?_, h⟩, fun hnone => ?_⟩
  · rw [Option.some.inj (hop.symm.trans hw')]
  · rw [hop] at hnone
    cases hnone

theorem performs_ask {next : Ret op → Program Op Ret ε α} (hop : d.write op = none)
    (hasks : d.asks op) (h : ∀ r, d.answers op r → Performs d Q (next r) ws) :
    Performs d Q (.call op next) ws := by
  refine ⟨fun w hw => ?_, fun _ => ⟨hasks, h⟩⟩
  rw [hop] at hw
  cases hw

theorem performs_bind {p : Program Op Ret ε α} {f : α → Program Op Ret ε β}
    (hp : Performs d Q p ws) (hf : ∀ a, Q a → Performs d Q' (f a) ws') :
    Performs d Q' (p >>= f) (ws ++ ws') := by
  change Performs d Q' (bind p f) _
  induction p generalizing ws with
  | pure a =>
    obtain ⟨ha, rfl⟩ := hp
    exact hf a ha
  | fail e => exact hp.elim
  | call op next ih =>
    cases hop : d.write op with
    | some w =>
      obtain ⟨rest, rfl, hnext⟩ := hp.1 w hop
      exact performs_write hop fun r => ih r (hnext r)
    | none =>
      obtain ⟨hasks, hnext⟩ := hp.2 hop
      exact performs_ask hop hasks fun r hr => ih r (hnext r hr)

end Program

namespace Pool

open Program

variable {ι Op ε σ τ ω : Type} {Ret : Op → Type} [DecidableEq ι]
  {exec : τ → (op : Op) → σ → Except ε (Ret op) × σ} {d : Discipline Op Ret ω}

/-- In the states that satisfy `I` the writes that satisfy `V` succeed and do what `apply` says, and
every question is answered as it should be. -/
structure Serves (exec : τ → (op : Op) → σ → Except ε (Ret op) × σ) (d : Discipline Op Ret ω)
    (apply : σ → ω → σ) (I : σ → Prop) (V : ω → Prop) : Prop where
  writes : ∀ x op w s, d.write op = some w → V w → I s →
    ∃ r, exec x op s = (.ok r, apply s w) ∧ I (apply s w)
  questions : ∀ x op s, d.write op = none → d.asks op → I s →
    ∃ r, exec x op s = (.ok r, s) ∧ d.answers op r

/-- What a task has put into a log of writes. -/
def share (i : ι) (log : List (ι × ω)) : List ω := (log.filter (fun p => p.1 = i)).map Prod.snd

variable {apply : σ → ω → σ} {I : σ → Prop} {V : ω → Prop} {i j : ι} {w : ω}
  {log : List (ι × ω)}

theorem share_snoc_self : share i (log ++ [(i, w)]) = share i log ++ [w] := by
  simp [share, List.filter_append]

theorem share_snoc_of_ne (h : j ≠ i) : share i (log ++ [(j, w)]) = share i log := by
  simp [share, List.filter_append, h]

theorem mem_share : w ∈ share i log ↔ (i, w) ∈ log := by
  simp [share]

/-- The store is the one that the log leaves, and each task has the rest of its writes to make. -/
structure Shuffled (d : Discipline Op Ret ω) (apply : σ → ω → σ) (I : σ → Prop)
    (writes : ι → List ω) (start : σ) (log : List (ι × ω)) (s : Pool ι Op Ret ε σ) : Prop where
  store : s.store = (log.map Prod.snd).foldl apply start
  holds : I s.store
  tasks : ∀ i, ∃ rest, writes i = share i log ++ rest ∧
    Performs d (fun _ => True) (s.tasks i) rest

theorem shuffled_turn (hexec : Serves exec d apply I V) {writes : ι → List ω}
    (hvalid : ∀ i, ∀ w ∈ writes i, V w) {start : σ} {s : Pool ι Op Ret ε σ}
    (h : Shuffled d apply I writes start log s) (t : Turn ι τ) :
    ∃ log', Shuffled d apply I writes start log' (turn exec s t) := by
  obtain ⟨rest, hrest, hperforms⟩ := h.tasks t.task
  cases htask : s.tasks t.task with
  | pure a =>
    have hnext : (s.tasks t.task).next? = none := by
      rw [htask]
      rfl
    refine ⟨log, ?_, ?_, fun i => ?_⟩
    · rw [turn_store_of_next?_none hnext]
      exact h.store
    · rw [turn_store_of_next?_none hnext]
      exact h.holds
    · by_cases hi : i = t.task
      · rw [hi, turn_task_of_next?_none hnext]
        exact h.tasks t.task
      · rw [turn_task_of_ne hi]
        exact h.tasks i
  | fail e =>
    rw [htask] at hperforms
    exact hperforms.elim
  | call op next =>
    rw [htask] at hperforms
    cases hop : d.write op with
    | some w =>
      obtain ⟨rest', rfl, hnext⟩ := hperforms.1 w hop
      have hmem : w ∈ writes t.task := by
        rw [hrest]
        simp
      obtain ⟨r, hr, hI⟩ := hexec.writes t.input op w s.store hop (hvalid _ w hmem) h.holds
      refine ⟨log ++ [(t.task, w)], ?_, ?_, fun i => ?_⟩
      · rw [turn_store, htask, advance_of_ok hr, List.map_append, List.foldl_append, ← h.store]
        rfl
      · rw [turn_store, htask, advance_of_ok hr]
        exact hI
      · by_cases hi : i = t.task
        · subst hi
          rw [turn_task, htask, advance_of_ok hr, share_snoc_self]
          exact ⟨rest', by rw [hrest]; simp, hnext r⟩
        · rw [turn_task_of_ne hi, share_snoc_of_ne (Ne.symm hi)]
          exact h.tasks i
    | none =>
      obtain ⟨hasks, hnext⟩ := hperforms.2 hop
      obtain ⟨r, hr, hanswer⟩ := hexec.questions t.input op s.store hop hasks h.holds
      refine ⟨log, ?_, ?_, fun i => ?_⟩
      · rw [turn_store, htask, advance_of_ok hr]
        exact h.store
      · rw [turn_store, htask, advance_of_ok hr]
        exact h.holds
      · by_cases hi : i = t.task
        · subst hi
          rw [turn_task, htask, advance_of_ok hr]
          exact ⟨rest, hrest, hnext r hanswer⟩
        · rw [turn_task_of_ne hi]
          exact h.tasks i

/-- However the tasks take turns, what they leave is what a shuffle of their writes leaves. -/
theorem shuffled_run (hexec : Serves exec d apply I V) {writes : ι → List ω}
    (hvalid : ∀ i, ∀ w ∈ writes i, V w) {s : Pool ι Op Ret ε σ} (hstart : I s.store)
    (htasks : ∀ i, Performs d (fun _ => True) (s.tasks i) (writes i)) (turns : List (Turn ι τ)) :
    ∃ log, Shuffled d apply I writes s.store log (History.run (turn exec) s turns) := by
  induction turns using List.reverseRecOn with
  | nil => exact ⟨[], rfl, hstart, fun i => ⟨writes i, rfl, htasks i⟩⟩
  | append_singleton turns t ih =>
    obtain ⟨log, hlog⟩ := ih
    rw [History.run_snoc]
    exact shuffled_turn hexec hvalid hlog t

theorem Shuffled.share_eq {writes : ι → List ω} {start : σ} {s : Pool ι Op Ret ε σ}
    (h : Shuffled d apply I writes start log s) (hdone : (s.tasks i).next? = none) :
    share i log = writes i := by
  obtain ⟨rest, hrest, hperforms⟩ := h.tasks i
  cases htask : s.tasks i with
  | pure a =>
    rw [htask] at hperforms
    rw [hrest, hperforms.2, List.append_nil]
  | fail e =>
    rw [htask] at hperforms
    exact hperforms.elim
  | call op next =>
    rw [htask] at hdone
    cases hdone

end Pool
end RemotierSync
