import Mathlib.Data.List.Sort
import Mathlib.Order.Monotone.Basic

/-!
# Following a change log with a cursor

The entries of a log carry positions from a linear order. A reader holds a cursor, asks for the
entries behind it in the order of their positions, at most `limit` at a time, and moves its
cursor to the last entry of the page. `CaughtUp` is what makes this lossless: every entry at or
before the cursor has been received. Writers keep it as long as whatever they add lands behind
the cursor, pages keep it, and a page that was not cut short leaves nothing to receive.
-/

namespace RemotierSync.ChangeLog

variable {ρ γ : Type*} [LinearOrder γ] (pos : ρ → γ)

def ordered (log : List ρ) : List ρ := log.insertionSort (fun r r' => pos r ≤ pos r')

def after (cursor : γ) (log : List ρ) : List ρ :=
  ordered pos (log.filter (fun r => cursor < pos r))

def Distinct (log : List ρ) : Prop := (log.map pos).Nodup

/-- Every entry at or before the cursor has been received. -/
def CaughtUp (log : List ρ) (cursor : γ) (Received : ρ → Prop) : Prop :=
  ∀ r ∈ log, pos r ≤ cursor → Received r

variable {pos} {log log' : List ρ} {cursor cursor' : γ} {Received Received' : ρ → Prop}

@[simp] theorem mem_ordered {r : ρ} : r ∈ ordered pos log ↔ r ∈ log :=
  (List.perm_insertionSort _ log).mem_iff

@[simp] theorem mem_after {r : ρ} : r ∈ after pos cursor log ↔ r ∈ log ∧ cursor < pos r := by
  simp [after]

omit [LinearOrder γ] in
theorem Distinct.filter (h : Distinct pos log) (p : ρ → Bool) : Distinct pos (log.filter p) :=
  h.sublist (List.filter_sublist.map pos)

omit [LinearOrder γ] in
theorem Distinct.eq_of_pos_eq (h : Distinct pos log) {r r' : ρ} (hr : r ∈ log) (hr' : r' ∈ log)
    (hp : pos r = pos r') : r = r' :=
  List.inj_on_of_nodup_map h hr hr' hp

omit [LinearOrder γ] in
theorem Distinct.of_added (h : Distinct pos log) {x : ρ} (hnodup : log'.Nodup)
    (hadded : ∀ r ∈ log', r ∈ log ∨ r = x) (hfresh : ∀ r ∈ log, pos r ≠ pos x) :
    Distinct pos log' := by
  refine List.Nodup.map_on ?_ hnodup
  intro r hr r' hr' heq
  rcases hadded r hr with hr | rfl
  · rcases hadded r' hr' with hr' | rfl
    · exact h.eq_of_pos_eq hr hr' heq
    · exact absurd heq (hfresh r hr)
  · rcases hadded r' hr' with hr' | rfl
    · exact absurd heq.symm (hfresh r' hr')
    · rfl

theorem ordered_pairwise_le : (ordered pos log).Pairwise (fun r r' => pos r ≤ pos r') := by
  have : Std.Total (fun r r' : ρ => pos r ≤ pos r') := ⟨fun r r' => le_total _ _⟩
  have : IsTrans ρ (fun r r' : ρ => pos r ≤ pos r') := ⟨fun _ _ _ => le_trans⟩
  exact List.pairwise_insertionSort _ log

theorem ordered_pairwise_lt (h : Distinct pos log) :
    (ordered pos log).Pairwise (fun r r' => pos r < pos r') := by
  have hnodup : ((ordered pos log).map pos).Nodup :=
    (((List.perm_insertionSort _ log).map pos).nodup_iff).mpr h
  have hne : (ordered pos log).Pairwise (fun r r' => pos r ≠ pos r') := List.pairwise_map.mp hnodup
  exact (ordered_pairwise_le.and hne).imp (fun h => lt_of_le_of_ne h.1 h.2)

theorem after_pairwise_lt (h : Distinct pos log) :
    (after pos cursor log).Pairwise (fun r r' => pos r < pos r') :=
  ordered_pairwise_lt (h.filter _)

theorem nodup_of_pairwise_lt {l : List ρ} (hl : l.Pairwise (fun r r' => pos r < pos r')) :
    l.Nodup :=
  hl.imp (fun hlt heq => absurd (congrArg pos heq) hlt.ne)

theorem mem_take_of_le_getLast {l : List ρ} (hl : l.Pairwise (fun r r' => pos r < pos r'))
    {limit : ℕ} {r last : ρ} (hr : r ∈ l) (hlast : (l.take limit).getLast? = some last)
    (hle : pos r ≤ pos last) : r ∈ l.take limit := by
  by_contra hnot
  have hdrop : r ∈ l.drop limit := by
    rw [← List.take_append_drop limit l, List.mem_append] at hr
    exact hr.resolve_left hnot
  rw [← List.take_append_drop limit l] at hl
  have hlt := (List.pairwise_append.mp hl).2.2 last (List.mem_of_getLast? hlast) r hdrop
  exact absurd hle (not_le.mpr hlt)

/-- In a list of increasing positions, an entry is on the page exactly if fewer entries than the
page holds come before it. -/
theorem mem_take_iff_countP_lt {l : List ρ} (hl : l.Pairwise (fun r r' => pos r < pos r'))
    {limit : ℕ} {r : ρ} (hr : r ∈ l) :
    r ∈ l.take limit ↔ l.countP (fun y => pos y < pos r) < limit := by
  induction l generalizing limit with
  | nil => cases hr
  | cons x l ih =>
    obtain ⟨hx, hl'⟩ := List.pairwise_cons.mp hl
    cases limit with
    | zero => simp
    | succ limit =>
      rw [List.take_succ_cons, List.mem_cons]
      rcases List.mem_cons.mp hr with rfl | hmem
      · have hnone : l.countP (fun y => pos y < pos r) = 0 := by
          rw [List.countP_eq_zero]
          intro y hy
          simpa using (hx y hy).le
        simp [hnone]
      · have hlt : pos x < pos r := hx r hmem
        have hne : r ≠ x := fun heq => hlt.ne (congrArg pos heq.symm)
        simp only [hne, false_or, ih hl' hmem]
        simp [hlt]

/-- The entries of a page, without the order: those behind the cursor before which, behind the
cursor, stand fewer entries than the page holds. -/
theorem mem_page_iff (h : Distinct pos log) {limit : ℕ} {r : ρ} :
    r ∈ (after pos cursor log).take limit ↔ r ∈ log ∧ cursor < pos r ∧
      log.countP (fun y => cursor < pos y ∧ pos y < pos r) < limit := by
  have hcount : (after pos cursor log).countP (fun y => pos y < pos r) =
      log.countP (fun y => cursor < pos y ∧ pos y < pos r) := by
    rw [after, ordered, (List.perm_insertionSort _ _).countP_eq, List.countP_filter]
    simp only [Bool.decide_and, Bool.and_comm]
  constructor
  · intro hr
    have hafter := List.mem_of_mem_take hr
    rw [mem_take_iff_countP_lt (after_pairwise_lt h) hafter, hcount] at hr
    exact ⟨(mem_after.mp hafter).1, (mem_after.mp hafter).2, hr⟩
  · rintro ⟨hr, hcursor, hlt⟩
    rw [mem_take_iff_countP_lt (after_pairwise_lt h) (mem_after.mpr ⟨hr, hcursor⟩), hcount]
    exact hlt

/-- The cursor after a page: the position of its last entry, or the old cursor. -/
def advance (pos : ρ → γ) (cursor : γ) (page : List ρ) : γ := (page.getLast?.map pos).getD cursor

theorem le_advance_of_mem {l : List ρ} (hl : l.Pairwise (fun r r' => pos r < pos r')) {r : ρ}
    (hr : r ∈ l) : pos r ≤ advance pos cursor l := by
  obtain ⟨init, last, rfl⟩ := (List.eq_nil_or_concat' l).resolve_left (List.ne_nil_of_mem hr)
  rw [advance, List.getLast?_concat, Option.map_some, Option.getD_some]
  rcases List.mem_append.mp hr with hr | hr
  · exact ((List.pairwise_append.mp hl).2.2 r hr last (by simp)).le
  · rw [List.mem_singleton.mp hr]

theorem le_advance {l : List ρ} (hl : ∀ r ∈ l, cursor < pos r) : cursor ≤ advance pos cursor l := by
  cases h : l.getLast? with
  | none => simp [advance, h]
  | some last =>
    rw [advance, h, Option.map_some, Option.getD_some]
    exact (hl last (List.mem_of_getLast? h)).le

theorem mem_page_of_le_advance (h : Distinct pos log) {limit : ℕ} {r : ρ} (hr : r ∈ log)
    (hcursor : cursor < pos r)
    (hle : pos r ≤ advance pos cursor ((after pos cursor log).take limit)) :
    r ∈ (after pos cursor log).take limit := by
  cases hlast : ((after pos cursor log).take limit).getLast? with
  | none =>
    rw [advance, hlast, Option.map_none, Option.getD_none] at hle
    exact absurd hcursor (not_lt.mpr hle)
  | some last =>
    rw [advance, hlast, Option.map_some, Option.getD_some] at hle
    exact mem_take_of_le_getLast (after_pairwise_lt h) (mem_after.mpr ⟨hr, hcursor⟩) hlast hle

theorem advance_lt_of_mem_drop {l : List ρ} (hl : l.Pairwise (fun r r' => pos r < pos r'))
    (hcursor : ∀ r ∈ l, cursor < pos r) {limit : ℕ} {r : ρ} (hr : r ∈ l.drop limit) :
    advance pos cursor (l.take limit) < pos r := by
  cases hlast : (l.take limit).getLast? with
  | none =>
    rw [advance, hlast, Option.map_none, Option.getD_none]
    exact hcursor r (List.mem_of_mem_drop hr)
  | some last =>
    rw [advance, hlast, Option.map_some, Option.getD_some]
    rw [← List.take_append_drop limit l] at hl
    exact (List.pairwise_append.mp hl).2.2 last (List.mem_of_getLast? hlast) r hr

/-- Behind the cursor that a page moves stands what the page has left. -/
theorem after_advance (h : Distinct pos log) (limit : ℕ) :
    after pos (advance pos cursor ((after pos cursor log).take limit)) log =
      (after pos cursor log).drop limit := by
  have hl : (after pos cursor log).Pairwise (fun r r' => pos r < pos r') := after_pairwise_lt h
  have hcursor : ∀ r ∈ after pos cursor log, cursor < pos r := fun r hr => (mem_after.mp hr).2
  have hmem (r : ρ) : r ∈ after pos (advance pos cursor ((after pos cursor log).take limit)) log ↔
      r ∈ (after pos cursor log).drop limit := by
    rw [mem_after]
    constructor
    · rintro ⟨hr, hlt⟩
      have hle : cursor ≤ advance pos cursor ((after pos cursor log).take limit) :=
        le_advance (fun r hr => hcursor r (List.mem_of_mem_take hr))
      have hafter : r ∈ after pos cursor log := mem_after.mpr ⟨hr, hle.trans_lt hlt⟩
      rw [← List.take_append_drop limit (after pos cursor log), List.mem_append] at hafter
      refine hafter.resolve_left (fun htake => ?_)
      exact absurd (le_advance_of_mem (hl.sublist (List.take_sublist _ _)) htake) (not_le.mpr hlt)
    · intro hr
      exact ⟨(mem_after.mp (List.mem_of_mem_drop hr)).1, advance_lt_of_mem_drop hl hcursor hr⟩
  have hnew : (after pos (advance pos cursor ((after pos cursor log).take limit)) log).Pairwise
      (fun r r' => pos r < pos r') := after_pairwise_lt h
  have hrest := hl.sublist (List.drop_sublist limit _)
  refine List.Perm.eq_of_pairwise ?_ hnew hrest
    ((List.perm_ext_iff_of_nodup (nodup_of_pairwise_lt hnew) (nodup_of_pairwise_lt hrest)).mpr hmem)
  exact fun r r' _ _ hlt hgt => absurd hgt hlt.asymm

/-- A writer keeps the reader caught up when all it adds lands behind the cursor. -/
theorem CaughtUp.of_write (h : CaughtUp pos log cursor Received)
    (hwrite : ∀ r ∈ log', pos r ≤ cursor → r ∈ log) : CaughtUp pos log' cursor Received :=
  fun r hr hle => h r (hwrite r hr hle) hle

theorem CaughtUp.of_page (h : CaughtUp pos log cursor Received) (hd : Distinct pos log') {limit : ℕ}
    (hsub : ∀ r ∈ log, r ∈ log') (hold : ∀ r, Received r → Received' r)
    (hpage : ∀ r ∈ (after pos cursor log').take limit, Received' r) :
    CaughtUp pos log (advance pos cursor ((after pos cursor log').take limit)) Received' := by
  intro r hr hle
  by_cases hcursor : pos r ≤ cursor
  · exact hold r (h r hr hcursor)
  · exact hpage r (mem_page_of_le_advance hd (hsub r hr) (not_le.mp hcursor) hle)

/-- A page that was not cut short leaves nothing behind. -/
theorem CaughtUp.drained (h : CaughtUp pos log cursor Received) {limit : ℕ}
    (hsub : ∀ r ∈ log, r ∈ log') (hold : ∀ r, Received r → Received' r)
    (hpage : ∀ r ∈ (after pos cursor log').take limit, Received' r)
    (hall : (after pos cursor log').length ≤ limit) : ∀ r ∈ log, Received' r := by
  intro r hr
  by_cases hcursor : pos r ≤ cursor
  · exact hold r (h r hr hcursor)
  · apply hpage
    rw [List.take_of_length_le hall]
    exact mem_after.mpr ⟨hsub r hr, not_le.mp hcursor⟩

end RemotierSync.ChangeLog
