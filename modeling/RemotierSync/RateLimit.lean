import RemotierSync.Library.KeyedTable
import RemotierSync.Library.SlidingWindow

/-!
# The rate limiter

The endpoints that guess are limited by address. A check sweeps the attempts of every address that
have left the window, forgets the addresses that have none left, and admits its own attempt if
fewer than `max` are left of the caller's. On a clock that does not run backwards it answers as
the limiter that keeps every admitted attempt for ever, and holds no other address than the
caller's for longer than a window after its last admitted attempt.
-/

namespace RemotierSync

inductive IpAddr where
  | v4 (octets : BitVec 32)
  | v6 (octets : BitVec 128)
deriving DecidableEq, Repr

/-- The admitted attempts of an address. Instants count nanoseconds. -/
structure HitEntry where
  ip : IpAddr
  times : List ℕ
deriving DecidableEq, Repr

structure RateLimit where
  window : ℕ
  max : ℕ
  hits : KeyedTable HitEntry.ip

/-- Zero if `t` is later. -/
def durationSince (now t : ℕ) : ℕ := now - t

namespace HitEntry

def retain (window now : ℕ) (e : HitEntry) : HitEntry :=
  { e with times := e.times.filter (fun t => durationSince now t < window) }

def push (now : ℕ) (e : HitEntry) : HitEntry := { e with times := e.times ++ [now] }

theorem retain_ip (window now : ℕ) (e : HitEntry) : (e.retain window now).ip = e.ip := rfl

theorem push_ip (now : ℕ) (e : HitEntry) : (e.push now).ip = e.ip := rfl

end HitEntry

namespace RateLimit

def new (max window : ℕ) : RateLimit := ⟨window, max, .empty⟩

variable (limit : RateLimit) (ip : IpAddr) (now : ℕ)

def sweep : RateLimit :=
  { limit with
    hits := (limit.hits.mapRows (HitEntry.retain limit.window now)
      (HitEntry.retain_ip limit.window now)).delete (fun e => e.times.isEmpty) }

def entryOrDefault : RateLimit :=
  { limit with hits := limit.hits.upsert ⟨ip, []⟩ (fun e => e) (fun _ => rfl) }

def timesOf : List ℕ := ((limit.hits.find? ip).map HitEntry.times).getD []

def push : RateLimit :=
  { limit with
    hits := limit.hits.update (fun e => e.ip = ip) (HitEntry.push now) (HitEntry.push_ip now) }

def check : Bool × RateLimit :=
  let limit := (limit.sweep now).entryOrDefault ip
  if (limit.timesOf ip).length ≥ limit.max then (false, limit) else (true, limit.push ip now)

open SlidingWindow

def answer (a : Attempt IpAddr) : Bool := (limit.check a.key a.time).1

def after (a : Attempt IpAddr) : RateLimit := (limit.check a.key a.time).2

def reached (max window : ℕ) (attempts : List (Attempt IpAddr)) : RateLimit :=
  History.run after (new max window) attempts

def answers (max window : ℕ) (attempts : List (Attempt IpAddr)) : List Bool :=
  History.outputs after answer (new max window) attempts

/-- The limiter answers as the one that keeps every admitted attempt. No half-open interval of the
window's length holds more than `max` admitted attempts of an address, the answers to an address do
not depend on the others, and behind a check every address held but the caller's has an admitted
attempt in the last window. -/
structure Specified (max window : ℕ) (attempts : List (Attempt IpAddr)) : Prop where
  answers_eq : answers max window attempts = SlidingWindow.answers max window attempts
  bounded : ∀ ip start, (attempts.zip (answers max window attempts)).countP
    (fun p => p.2 ∧ p.1.key = ip ∧ start ≤ p.1.time ∧ p.1.time < start + window) ≤ max
  isolated : ∀ ip, ((attempts.zip (answers max window attempts)).filter
      (fun p => p.1.key = ip)).map Prod.snd =
    answers max window (attempts.filter (fun a => a.key = ip))
  swept : ∀ before a later, attempts = before ++ a :: later →
    ∀ e ∈ (reached max window (before ++ [a])).hits.rows, e.ip = a.key ∨
      ∃ b, (b, true) ∈ (before ++ [a]).zip (answers max window (before ++ [a])) ∧
        b.key = e.ip ∧ durationSince a.time b.time < window

variable {limit} {ip} {now} {ip' : IpAddr} {e : HitEntry} {window max last : ℕ}
  {log attempts : List (Attempt IpAddr)} {a : Attempt IpAddr}

/-! ## One check -/

theorem timesOf_of_mem (h : e ∈ limit.hits.rows) : limit.timesOf e.ip = e.times := by
  rw [timesOf, KeyedTable.find?_isSome_of_mem h, Option.map_some, Option.getD_some]

theorem timesOf_of_absent (h : ∀ e ∈ limit.hits.rows, e.ip ≠ ip) : limit.timesOf ip = [] := by
  rw [timesOf, KeyedTable.find?_eq_none.mpr h, Option.map_none, Option.getD_none]

theorem mem_sweep : e ∈ (limit.sweep now).hits.rows ↔
    (∃ o ∈ limit.hits.rows, o.retain limit.window now = e) ∧ e.times ≠ [] := by
  simp [sweep, KeyedTable.mapRows]

theorem timesOf_sweep : (limit.sweep now).timesOf ip =
    (limit.timesOf ip).filter (fun t => durationSince now t < limit.window) := by
  by_cases h : ∃ o ∈ limit.hits.rows, o.ip = ip
  · obtain ⟨o, ho, rfl⟩ := h
    have htimes : (o.retain limit.window now).times =
        (limit.timesOf o.ip).filter (fun t => durationSince now t < limit.window) := by
      rw [timesOf_of_mem ho]
      rfl
    rw [← htimes]
    by_cases hempty : (o.retain limit.window now).times = []
    · rw [hempty]
      apply timesOf_of_absent
      intro e he hip
      obtain ⟨⟨o', ho', rfl⟩, hne⟩ := mem_sweep.mp he
      rw [limit.hits.eq_of_key_eq ho' ho hip] at hne
      exact hne hempty
    · exact timesOf_of_mem (mem_sweep.mpr ⟨⟨o, ho, rfl⟩, hempty⟩)
  · push Not at h
    rw [timesOf_of_absent h, List.filter_nil]
    apply timesOf_of_absent
    intro e he
    obtain ⟨⟨o, ho, rfl⟩, _⟩ := mem_sweep.mp he
    exact h o ho

theorem timesOf_entryOrDefault : (limit.entryOrDefault ip).timesOf ip' = limit.timesOf ip' := by
  by_cases h : ip' = ip
  · subst h
    have hself : (limit.entryOrDefault ip').hits.find? ip' =
        some (limit.hits.upserted ⟨ip', []⟩ (fun e => e)) := KeyedTable.find?_upsert_self
    rw [timesOf, hself, timesOf, KeyedTable.upserted]
    cases limit.hits.find? ip' <;> rfl
  · have hother : (limit.entryOrDefault ip).hits.find? ip' = limit.hits.find? ip' :=
      KeyedTable.find?_upsert_of_ne h
    rw [timesOf, hother, timesOf]

theorem mem_entryOrDefault : e ∈ (limit.entryOrDefault ip).hits.rows →
    e ∈ limit.hits.rows ∨ e.ip = ip := by
  intro he
  rcases KeyedTable.mem_upsert.mp he with ⟨he, _⟩ | rfl
  · exact Or.inl he
  · exact Or.inr (KeyedTable.key_upserted (fun _ => rfl))

theorem mem_push : e ∈ (limit.push ip now).hits.rows ↔
    ∃ o ∈ limit.hits.rows, (if decide (o.ip = ip) = true then o.push now else o) = e :=
  List.mem_map

theorem timesOf_push (h : limit.hits.find? ip ≠ none) :
    (limit.push ip now).timesOf ip' =
      limit.timesOf ip' ++ if ip' = ip then [now] else [] := by
  rw [timesOf, push, KeyedTable.update, KeyedTable.find?_mapRows, timesOf]
  cases hfind : limit.hits.find? ip' with
  | none =>
    have hne : ip' ≠ ip := by
      rintro rfl
      exact h hfind
    simp [hne]
  | some e =>
    obtain rfl := KeyedTable.find?_key_eq hfind
    by_cases hip : e.ip = ip <;> simp [hip, HitEntry.push]

theorem timesOf_swept : ((limit.sweep now).entryOrDefault ip).timesOf ip' =
    (limit.timesOf ip').filter (fun t => durationSince now t < limit.window) := by
  rw [timesOf_entryOrDefault, timesOf_sweep]

theorem answer_iff : limit.answer a = true ↔
    ((limit.timesOf a.key).filter (fun t => durationSince a.time t < limit.window)).length <
      limit.max := by
  have hmax : ((limit.sweep a.time).entryOrDefault a.key).max = limit.max := rfl
  rw [answer, check, timesOf_swept, hmax, ← Nat.not_le]
  split_ifs with hfull <;> simp [hfull]

theorem after_eq : limit.after a =
    if limit.answer a then ((limit.sweep a.time).entryOrDefault a.key).push a.key a.time
    else (limit.sweep a.time).entryOrDefault a.key := by
  rw [after, answer, check]
  by_cases hfull : (((limit.sweep a.time).entryOrDefault a.key).timesOf a.key).length ≥
      ((limit.sweep a.time).entryOrDefault a.key).max
  · rw [if_pos hfull, if_neg Bool.false_ne_true]
  · rw [if_neg hfull, if_pos rfl]

theorem timesOf_after : (limit.after a).timesOf ip =
    (limit.timesOf ip).filter (fun t => durationSince a.time t < limit.window) ++
      if ip = a.key ∧ limit.answer a = true then [a.time] else [] := by
  have hentry : ((limit.sweep a.time).entryOrDefault a.key).hits.find? a.key ≠ none := by
    rw [entryOrDefault, KeyedTable.find?_upsert_self]
    exact Option.some_ne_none _
  rw [after_eq]
  split_ifs with hanswer hip hip
  · rw [timesOf_push hentry, timesOf_swept, if_pos hip.1]
  · rw [timesOf_push hentry, timesOf_swept, if_neg (fun h => hip ⟨h, hanswer⟩)]
  · exact absurd hip.2 hanswer
  · rw [timesOf_swept, List.append_nil]

theorem window_after : (limit.after a).window = limit.window := by
  rw [after_eq]
  split_ifs <;> rfl

theorem max_after : (limit.after a).max = limit.max := by
  rw [after_eq]
  split_ifs <;> rfl

theorem mem_after (h : e ∈ (limit.after a).hits.rows) : e.ip = a.key ∨ e.times ≠ [] := by
  have hswept (o : HitEntry) (ho : o ∈ ((limit.sweep a.time).entryOrDefault a.key).hits.rows) :
      o.ip = a.key ∨ o.times ≠ [] := by
    rcases mem_entryOrDefault ho with ho | hip
    · exact Or.inr (mem_sweep.mp ho).2
    · exact Or.inl hip
  rw [after_eq] at h
  split_ifs at h
  · obtain ⟨o, ho, rfl⟩ := mem_push.mp h
    split_ifs with hip
    · exact Or.inl (of_decide_eq_true hip)
    · exact hswept o ho
  · exact hswept e h

/-! ## A run of checks -/

/-- The limiter holds, of the attempts in the log, those that any later sweep leaves. -/
structure Keeps (max window : ℕ) (log : List (Attempt IpAddr)) (last : ℕ) (limit : RateLimit) :
    Prop where
  window_eq : limit.window = window
  max_eq : limit.max = max
  times_eq : ∀ ip now, last ≤ now →
    (limit.timesOf ip).filter (fun t => durationSince now t < limit.window) =
      (recent window log ip now).map Attempt.time

theorem keeps_new : Keeps max window [] 0 (new max window) where
  window_eq := rfl
  max_eq := rfl
  times_eq _ _ _ := rfl

theorem Keeps.answer_eq (h : Keeps max window log last limit) (hclock : last ≤ a.time) :
    limit.answer a = admits max window log a := by
  rw [Bool.eq_iff_iff, answer_iff, h.times_eq a.key a.time hclock, List.length_map, h.max_eq,
    admits_iff]

theorem recent_record (now : ℕ) :
    (recent window (record max window log a) ip now).map Attempt.time =
      (recent window log ip now).map Attempt.time ++
        (if ip = a.key ∧ admits max window log a = true then [a.time] else []).filter
          (fun t => durationSince now t < window) := by
  rw [record]
  by_cases hadmits : admits max window log a = true
  · rw [if_pos hadmits, recent, List.filter_append, List.map_append, ← recent]
    by_cases hip : a.key = ip
    · subst hip
      by_cases hnow : now - a.time < window <;> simp [durationSince, hadmits, hnow]
    · simp [hip, Ne.symm hip]
  · rw [if_neg hadmits, if_neg (fun h => hadmits h.2), List.filter_nil, List.append_nil]

theorem Keeps.after (h : Keeps max window log last limit) (hclock : last ≤ a.time) :
    Keeps max window (record max window log a) a.time (limit.after a) where
  window_eq := window_after.trans h.window_eq
  max_eq := max_after.trans h.max_eq
  times_eq ip now hnow := by
    rw [timesOf_after, h.times_eq ip a.time hclock, h.answer_eq hclock, window_after, h.window_eq,
      List.filter_append, recent_record, List.filter_map, ← filter_recent hnow]
    rfl

/-- The limiter answers as the one that keeps the log, and keeps what it needs of the log. -/
theorem keeps_reached (h : attempts.Pairwise (fun a b => a.time ≤ b.time)) :
    answers max window attempts = SlidingWindow.answers max window attempts ∧
      ∃ last, (∀ now, (∀ a ∈ attempts, a.time ≤ now) → last ≤ now) ∧
        Keeps max window (admitted max window attempts) last (reached max window attempts) := by
  induction attempts using List.reverseRecOn with
  | nil => exact ⟨rfl, 0, fun now _ => Nat.zero_le now, keeps_new⟩
  | append_singleton attempts a ih =>
    obtain ⟨hbefore, _, hlast⟩ := List.pairwise_append.mp h
    obtain ⟨hanswers, last, hle, hkeeps⟩ := ih hbefore
    have hclock : last ≤ a.time := hle a.time (fun b hb => hlast b hb a List.mem_cons_self)
    refine ⟨?_, a.time, fun now hnow => hnow a (by simp), ?_⟩
    · rw [answers, History.outputs_snoc, SlidingWindow.answers, History.outputs_snoc]
      exact congrArg₂ (· ++ [·]) hanswers (hkeeps.answer_eq hclock)
    · rw [reached, History.run_snoc, admitted_snoc]
      exact hkeeps.after hclock

theorem exists_admitted (h : (attempts ++ [a]).Pairwise (fun a b => a.time ≤ b.time))
    (he : e ∈ (reached max window (attempts ++ [a])).hits.rows) (hne : e.ip ≠ a.key) :
    ∃ b ∈ admitted max window (attempts ++ [a]), b.key = e.ip ∧
      durationSince a.time b.time < window := by
  obtain ⟨hbefore, _, hlast⟩ := List.pairwise_append.mp h
  obtain ⟨last, hle, hkeeps⟩ : ∃ last, (∀ now, (∀ a ∈ attempts, a.time ≤ now) → last ≤ now) ∧
      Keeps max window (admitted max window attempts) last (reached max window attempts) :=
    (keeps_reached hbefore).2
  have hclock : last ≤ a.time := hle a.time (fun b hb => hlast b hb a List.mem_cons_self)
  rw [reached, History.run_snoc] at he
  have htimes : e.times = (recent window (admitted max window attempts) e.ip a.time).map
      Attempt.time := by
    rw [← timesOf_of_mem he, timesOf_after, if_neg (fun h => hne h.1), List.append_nil]
    exact hkeeps.times_eq e.ip a.time hclock
  have hsome : recent window (admitted max window attempts) e.ip a.time ≠ [] := by
    intro hnone
    rw [hnone] at htimes
    exact (mem_after he).elim hne (fun h => h htimes)
  obtain ⟨b, hb⟩ := List.exists_mem_of_ne_nil _ hsome
  obtain ⟨hmem, hrecent⟩ := List.mem_filter.mp hb
  refine ⟨b, ?_, of_decide_eq_true hrecent⟩
  rw [admitted_snoc, record]
  split_ifs
  · exact List.mem_append_left _ hmem
  · exact hmem

/-- On a clock that does not run backwards the limiter meets its specification. -/
theorem check_specified (max window : ℕ) (attempts : List (Attempt IpAddr))
    (h : attempts.Pairwise (fun a b => a.time ≤ b.time)) : Specified max window attempts where
  answers_eq := (keeps_reached h).1
  bounded ip start := by
    rw [(keeps_reached h).1]
    refine Nat.le_trans (Nat.le_of_eq (countP_answered (fun a =>
      a.key = ip ∧ start ≤ a.time ∧ a.time < start + window))) ?_
    exact countP_admitted_le attempts ip start
  isolated ip := by
    rw [(keeps_reached h).1, answers_filter_key, (keeps_reached (h.filter _)).1]
  swept before a later hsplit e he := by
    have hsorted : (before ++ [a]).Pairwise (fun a b => a.time ≤ b.time) := by
      rw [hsplit, List.append_cons] at h
      exact (List.pairwise_append.mp h).1
    by_cases hip : e.ip = a.key
    · exact Or.inl hip
    · obtain ⟨b, hb, hkey, hwindow⟩ := exists_admitted hsorted he hip
      rw [mem_admitted, ← (keeps_reached hsorted).1] at hb
      exact Or.inr ⟨b, hb, hkey, hwindow⟩

section Runs

def address (last : ℕ) : IpAddr := .v4 (BitVec.ofNat 32 (0x7F000000 + last))

def attemptsOfTwo : List (Attempt IpAddr) :=
  [⟨address 1, 0⟩, ⟨address 1, 1⟩, ⟨address 1, 2⟩, ⟨address 2, 2⟩, ⟨address 1, 60⟩]

theorem attemptsOfTwo_specified :
    answers 2 60 attemptsOfTwo = [true, true, false, true, true] ∧
      Specified 2 60 attemptsOfTwo :=
  ⟨by decide +kernel, check_specified 2 60 attemptsOfTwo (by decide)⟩

end Runs

end RateLimit
end RemotierSync
