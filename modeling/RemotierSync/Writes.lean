import RemotierSync.WellFormed
import RemotierSync.Library.LastWrite

/-!
# Sequences of writes

What a sequence of `put_envelope` calls leaves under one key depends only on the row stored
there before and on the envelopes of the sequence that hit the key: of these the first one with
the greatest clock takes the row, provided it supersedes what was stored. `find?_puts` states
this for every key whose account exists.
-/

namespace RemotierSync.SqliteStore

variable (P : Platform)

def puts (db : SqliteDb) (writes : List (String × Envelope)) : SqliteDb :=
  writes.foldl (fun db w => (putEnvelope P w.1 w.2 db).2) db

def envelopesAt (k : String × String × String) (writes : List (String × Envelope)) :
    List Envelope :=
  (writes.filter (fun w => recordKey w.1 w.2 = k)).map Prod.snd

/-- The envelope that takes the row under a key, if any does. -/
def winner (db : SqliteDb) (writes : List (String × Envelope)) (k : String × String × String) :
    Option Envelope :=
  ((envelopesAt k writes).argmax Envelope.clock).filter
    (fun e => Supersedes (db.records.find? k) e.clock)

variable {P} {db : SqliteDb} {writes : List (String × Envelope)} {w : String × Envelope}
  {k : String × String × String} {e : Envelope}

theorem puts_cons : puts P db (w :: writes) = puts P (putEnvelope P w.1 w.2 db).2 writes := rfl

theorem puts_snoc :
    puts P db (writes ++ [w]) = (putEnvelope P w.1 w.2 (puts P db writes)).2 := by
  simp [puts, List.foldl_append]

theorem puts_append_cons {before after : List (String × Envelope)} :
    puts P db (before ++ w :: after) =
      puts P (putEnvelope P w.1 w.2 (puts P db before)).2 after := by
  simp [puts, List.foldl_append]

theorem puts_frame : (puts P db writes).accounts = db.accounts ∧
    (puts P db writes).shares = db.shares ∧ (puts P db writes).tokens = db.tokens := by
  induction writes using List.reverseRecOn with
  | nil => exact ⟨rfl, rfl, rfl⟩
  | append_singleton writes w ih =>
    rw [puts_snoc, putEnvelope_accounts, putEnvelope_shares, putEnvelope_frame.2.1]
    exact ih

theorem grows_puts (P : Platform) (db : SqliteDb) (writes : List (String × Envelope)) :
    Grows db (puts P db writes) := by
  induction writes using List.reverseRecOn with
  | nil => exact .refl db
  | append_singleton writes w ih =>
    rw [puts_snoc]
    exact ih.trans grows_putEnvelope

theorem wellFormed_puts (h : WellFormed db) (writes : List (String × Envelope)) :
    WellFormed (puts P db writes) := by
  induction writes using List.reverseRecOn with
  | nil => exact h
  | append_singleton writes w ih =>
    rw [puts_snoc]
    exact wellFormed_putEnvelope ih

theorem mem_envelopesAt :
    e ∈ envelopesAt k writes ↔ (k.1, e) ∈ writes ∧ recordKey k.1 e = k := by
  simp only [envelopesAt, List.mem_map, List.mem_filter, decide_eq_true_eq, Prod.exists,
    exists_eq_right]
  constructor
  · rintro ⟨accountId, hmem, rfl⟩
    exact ⟨hmem, rfl⟩
  · intro h
    exact ⟨k.1, h⟩

theorem envelopesAt_snoc_of_ne (h : recordKey w.1 w.2 ≠ k) :
    envelopesAt k (writes ++ [w]) = envelopesAt k writes := by
  simp [envelopesAt, List.filter_append, h]

theorem envelopesAt_snoc_of_eq (h : recordKey w.1 w.2 = k) :
    envelopesAt k (writes ++ [w]) = envelopesAt k writes ++ [w.2] := by
  simp [envelopesAt, List.filter_append, h]

theorem Supersedes.mono {stored : Option RecordEntry} {c d : Clock} (h : Supersedes stored c)
    (hcd : c ≤ d) : Supersedes stored d :=
  fun r hr => (h r hr).trans_le hcd

theorem winner_eq_some : winner db writes k = some e ↔
    (envelopesAt k writes).argmax Envelope.clock = some e ∧
      Supersedes (db.records.find? k) e.clock := by
  simp [winner, Option.filter_eq_some_iff]

theorem winner_eq_none : winner db writes k = none ↔
    ∀ e ∈ envelopesAt k writes, ¬ Supersedes (db.records.find? k) e.clock := by
  constructor
  · intro h e he hs
    obtain ⟨e', he'⟩ := LastWrite.exists_argmax_of_mem Envelope.clock he
    have hle := LastWrite.le_of_argmax_eq_some he' he
    have hwins := winner_eq_some.mpr ⟨he', hs.mono hle⟩
    rw [h] at hwins
    exact absurd hwins (by simp)
  · intro h
    cases hw : winner db writes k with
    | none => rfl
    | some e =>
      obtain ⟨hmax, hs⟩ := winner_eq_some.mp hw
      exact absurd hs (h e (LastWrite.mem_of_argmax_eq_some hmax))

theorem winner_snoc_of_ne (h : recordKey w.1 w.2 ≠ k) :
    winner db (writes ++ [w]) k = winner db writes k := by
  rw [winner, envelopesAt_snoc_of_ne h, winner]

/-- A later envelope takes the row from the winner so far if its clock is greater. -/
theorem winner_snoc_of_some (hk : recordKey w.1 w.2 = k) (h : winner db writes k = some e) :
    winner db (writes ++ [w]) k = some (LastWrite.keep Envelope.clock e w.2) := by
  obtain ⟨hmax, hs⟩ := winner_eq_some.mp h
  rw [winner_eq_some, envelopesAt_snoc_of_eq hk, LastWrite.argmax_snoc_of_argmax_eq_some hmax]
  refine ⟨rfl, hs.mono ?_⟩
  unfold LastWrite.keep
  split_ifs with hlt
  · exact hlt.le
  · exact le_rfl

theorem winner_snoc_of_none (hk : recordKey w.1 w.2 = k) (h : winner db writes k = none) :
    winner db (writes ++ [w]) k =
      if Supersedes (db.records.find? k) w.2.clock then some w.2 else none := by
  have hnone := winner_eq_none.mp h
  split_ifs with hs
  · rw [winner_eq_some, envelopesAt_snoc_of_eq hk]
    refine ⟨?_, hs⟩
    cases hmax : (envelopesAt k writes).argmax Envelope.clock with
    | none =>
      rw [List.argmax_eq_none.mp hmax]
      rfl
    | some e =>
      have hlt : e.clock < w.2.clock := by
        by_contra hle
        exact hnone e (LastWrite.mem_of_argmax_eq_some hmax) (hs.mono (not_lt.mp hle))
      rw [LastWrite.argmax_snoc_of_argmax_eq_some hmax, LastWrite.keep, if_pos hlt]
  · rw [winner_eq_none, envelopesAt_snoc_of_eq hk]
    intro e he
    rcases List.mem_append.mp he with he | he
    · exact hnone e he
    · rwa [List.mem_singleton.mp he]

/-- Either no envelope takes the row, which then stands as it did, or the winner stands there
under a new number. -/
theorem find?_puts (P : Platform) (writes : List (String × Envelope))
    (hacc : db.accountById k.1 ≠ none) :
    (winner db writes k = none ∧ (puts P db writes).records.find? k = db.records.find? k) ∨
      ∃ e seq, winner db writes k = some e ∧ db.next < seq ∧
        (puts P db writes).records.find? k = some (P.recordEntry k.1 e seq) := by
  induction writes using List.reverseRecOn with
  | nil => exact Or.inl ⟨rfl, rfl⟩
  | append_singleton writes w ih =>
    rw [puts_snoc]
    by_cases hk : recordKey w.1 w.2 = k
    · have hk1 : w.1 = k.1 := congrArg Prod.fst hk
      have hfile : Fileable (puts P db writes) w.1 w.2 := by
        apply fileable_of_account
        rwa [Tables.accountById, puts_frame.1, hk1]
      have hgrows : db.next < (puts P db writes).next + 1 := by
        have := (grows_puts P db writes).1
        omega
      rw [find?_putEnvelope hfile, hk1]
      rcases ih with ⟨hw, hfind⟩ | ⟨e, seq, hw, hlt, hfind⟩
      · rw [winner_snoc_of_none hk hw, hfind]
        by_cases hs : Supersedes (db.records.find? k) w.2.clock
        · rw [if_pos hs, if_pos ⟨by rw [← hk1, hk], hs⟩]
          exact Or.inr ⟨w.2, _, rfl, hgrows, rfl⟩
        · rw [if_neg hs, if_neg (fun h => hs h.2)]
          exact Or.inl ⟨rfl, rfl⟩
      · rw [winner_snoc_of_some hk hw, hfind]
        refine Or.inr ?_
        by_cases hs : e.clock < w.2.clock
        · have hsup : Supersedes (some (P.recordEntry k.1 e seq)) w.2.clock := by
            simpa [Supersedes] using hs
          rw [LastWrite.keep, if_pos hs, if_pos ⟨by rw [← hk1, hk], hsup⟩]
          exact ⟨w.2, _, rfl, hgrows, rfl⟩
        · have hsup : ¬ Supersedes (some (P.recordEntry k.1 e seq)) w.2.clock := by
            simpa [Supersedes] using hs
          rw [LastWrite.keep, if_neg hs, if_neg (fun h => hsup h.2)]
          exact ⟨e, seq, rfl, hlt, rfl⟩
    · rw [find?_putEnvelope_of_ne (fun h => hk h.symm), winner_snoc_of_ne hk]
      exact ih

theorem find?_puts_of_winner_eq_none (hacc : db.accountById k.1 ≠ none)
    (h : winner db writes k = none) :
    (puts P db writes).records.find? k = db.records.find? k := by
  rcases find?_puts P writes hacc with ⟨_, hfind⟩ | ⟨e, seq, hw, _⟩
  · exact hfind
  · rw [h] at hw
    exact absurd hw (by simp)

theorem find?_puts_of_winner_eq_some (hacc : db.accountById k.1 ≠ none)
    (h : winner db writes k = some e) : ∃ seq, db.next < seq ∧
      (puts P db writes).records.find? k = some (P.recordEntry k.1 e seq) := by
  rcases find?_puts P writes hacc with ⟨hw, _⟩ | ⟨e', seq, hw, hfind⟩
  · rw [h] at hw
    exact absurd hw (by simp)
  · obtain rfl : e = e' := Option.some.inj (h.symm.trans hw)
    exact ⟨seq, hfind⟩

theorem find?_puts_ne_iff (hacc : db.accountById k.1 ≠ none) :
    (puts P db writes).records.find? k ≠ db.records.find? k ↔
      ∃ e, winner db writes k = some e := by
  constructor
  · intro hne
    cases h : winner db writes k with
    | none => exact absurd (find?_puts_of_winner_eq_none hacc h) hne
    | some e => exact ⟨e, rfl⟩
  · rintro ⟨e, h⟩ heq
    obtain ⟨seq, _, hfind⟩ := find?_puts_of_winner_eq_some (P := P) hacc h
    have hs := (winner_eq_some.mp h).2
    rw [← heq, hfind] at hs
    exact absurd (hs _ rfl) (lt_irrefl _)

theorem write_of_mem_puts {r : RecordEntry} (hr : r ∈ (puts P db writes).records.rows) :
    r ∈ db.records.rows ∨ ∃ before w after, writes = before ++ w :: after ∧
      (putEnvelope P w.1 w.2 (puts P db before)).1 = .ok (some r.seq) ∧
      r = P.recordEntry w.1 w.2 r.seq := by
  induction writes using List.reverseRecOn with
  | nil => exact Or.inl hr
  | append_singleton writes w ih =>
    rw [puts_snoc] at hr
    rcases mem_putEnvelope hr with hr | ⟨rfl, hfile, hsup⟩
    · rcases ih hr with hold | ⟨before, w', after, rfl, hput, hrow⟩
      · exact Or.inl hold
      · exact Or.inr ⟨before, w', after ++ [w], by simp, hput, hrow⟩
    · exact Or.inr ⟨writes, w, [], rfl, by rw [putEnvelope_fst hfile, if_pos hsup]; rfl, rfl⟩

end RemotierSync.SqliteStore
