import Mathlib.Data.List.Nodup

/-!
# Tables with a primary key

A `KeyedTable key` is a finite list of rows whose keys are pairwise distinct, so the primary
key constraint holds by construction. The operations are those of a relational table: a lookup
by key, an insert that updates the row already stored under the key, an update of the rows that
satisfy a condition, and a delete. Each one is characterised by the rows it leaves, and none of
these statements mentions the order in which rows are stored.
-/

namespace RemotierSync

structure KeyedTable {ρ κ : Type*} (key : ρ → κ) where
  rows : List ρ
  nodup : (rows.map key).Nodup

namespace KeyedTable

variable {ρ κ : Type*} {key : ρ → κ}

def empty : KeyedTable key := ⟨[], List.nodup_nil⟩

@[simp] theorem rows_empty : (empty : KeyedTable key).rows = [] := rfl

theorem eq_of_key_eq (t : KeyedTable key) {r r' : ρ} (hr : r ∈ t.rows) (hr' : r' ∈ t.rows)
    (hk : key r = key r') : r = r' :=
  List.inj_on_of_nodup_map t.nodup hr hr' hk

theorem rows_nodup (t : KeyedTable key) : t.rows.Nodup := List.Nodup.of_map key t.nodup

def mapRows (t : KeyedTable key) (f : ρ → ρ) (hf : ∀ r, key (f r) = key r) : KeyedTable key where
  rows := t.rows.map f
  nodup := by
    rw [List.map_map, show key ∘ f = key from funext hf]
    exact t.nodup

def update (t : KeyedTable key) (p : ρ → Bool) (f : ρ → ρ) (hf : ∀ r, key (f r) = key r) :
    KeyedTable key :=
  t.mapRows (fun r => if p r then f r else r) (fun r => by split_ifs <;> simp [hf])

def delete (t : KeyedTable key) (p : ρ → Bool) : KeyedTable key where
  rows := t.rows.filter (fun r => !p r)
  nodup := t.nodup.sublist (List.filter_sublist.map key)

@[simp] theorem mem_delete {t : KeyedTable key} {p : ρ → Bool} {r : ρ} :
    r ∈ (t.delete p).rows ↔ r ∈ t.rows ∧ p r = false := by
  simp [delete]

theorem delete_eq_self {t : KeyedTable key} {p : ρ → Bool} (h : ∀ r ∈ t.rows, p r = false) :
    t.delete p = t := by
  obtain ⟨rows, nodup⟩ := t
  simp only [delete, mk.injEq, List.filter_eq_self, Bool.not_eq_true']
  exact h

theorem mem_update {t : KeyedTable key} {p : ρ → Bool} {f : ρ → ρ}
    {hf : ∀ r, key (f r) = key r} {r : ρ} :
    r ∈ (t.update p f hf).rows ↔ ∃ o ∈ t.rows, (if p o then f o else o) = r :=
  List.mem_map

theorem update_eq_self {t : KeyedTable key} {p : ρ → Bool} {f : ρ → ρ}
    (hf : ∀ r, key (f r) = key r) (h : ∀ r ∈ t.rows, p r = true → f r = r) :
    t.update p f hf = t := by
  obtain ⟨rows, nodup⟩ := t
  simp only [update, mapRows, mk.injEq]
  refine (List.map_congr_left (fun r hr => ?_)).trans (List.map_id' rows)
  split_ifs with hp
  · exact h r hr hp
  · rfl

variable [DecidableEq κ]

def find? (t : KeyedTable key) (k : κ) : Option ρ := t.rows.find? (fun r => key r = k)

theorem find?_eq_some {t : KeyedTable key} {k : κ} {r : ρ} :
    t.find? k = some r ↔ r ∈ t.rows ∧ key r = k := by
  constructor
  · intro h
    exact ⟨List.mem_of_find?_eq_some h, by simpa using List.find?_some h⟩
  · rintro ⟨hr, rfl⟩
    have hsome : (t.find? (key r)).isSome := by
      rw [find?, List.find?_isSome]
      exact ⟨r, hr, by simp⟩
    obtain ⟨r', h⟩ := Option.isSome_iff_exists.mp hsome
    have hk : key r' = key r := by simpa using List.find?_some h
    rw [h, t.eq_of_key_eq (List.mem_of_find?_eq_some h) hr hk]

theorem find?_eq_none {t : KeyedTable key} {k : κ} :
    t.find? k = none ↔ ∀ r ∈ t.rows, key r ≠ k := by
  simp [find?, List.find?_eq_none]

theorem find?_key_eq {t : KeyedTable key} {k : κ} {r : ρ} (h : t.find? k = some r) : key r = k :=
  (find?_eq_some.mp h).2

theorem find?_isSome_of_mem {t : KeyedTable key} {r : ρ} (h : r ∈ t.rows) :
    t.find? (key r) = some r :=
  find?_eq_some.mpr ⟨h, rfl⟩

theorem find?_mapRows {t : KeyedTable key} {f : ρ → ρ} {hf : ∀ r, key (f r) = key r} {k : κ} :
    (t.mapRows f hf).find? k = (t.find? k).map f := by
  simp only [find?, mapRows, List.find?_map, Function.comp_def, hf]

/-- `INSERT ... ON CONFLICT(key) DO UPDATE`: a row whose key is new is appended, and a row
already stored under the key is rewritten by `f`. -/
def upsert (t : KeyedTable key) (r : ρ) (f : ρ → ρ) (hf : ∀ o, key (f o) = key o) :
    KeyedTable key :=
  if h : t.find? (key r) = none then
    { rows := t.rows ++ [r]
      nodup := by
        rw [List.map_append, List.nodup_append]
        refine ⟨t.nodup, List.nodup_singleton _, ?_⟩
        intro k hk k' hk'
        obtain ⟨o, ho, rfl⟩ := List.mem_map.mp hk
        rw [List.mem_singleton.mp hk']
        exact find?_eq_none.mp h o ho }
  else t.update (fun o => key o = key r) f hf

variable {t : KeyedTable key} {r : ρ} {f : ρ → ρ} {hf : ∀ o, key (f o) = key o}

def upserted (t : KeyedTable key) (r : ρ) (f : ρ → ρ) : ρ := ((t.find? (key r)).map f).getD r

theorem upserted_of_find?_none (h : t.find? (key r) = none) : t.upserted r f = r := by
  simp [upserted, h]

theorem upserted_of_find?_some {o : ρ} (h : t.find? (key r) = some o) :
    t.upserted r f = f o := by
  simp [upserted, h]

theorem key_upserted (hf : ∀ o, key (f o) = key o) : key (t.upserted r f) = key r := by
  cases h : t.find? (key r) with
  | none => rw [upserted_of_find?_none h]
  | some o => rw [upserted_of_find?_some h, hf, find?_key_eq h]

theorem mem_upsert {x : ρ} :
    x ∈ (t.upsert r f hf).rows ↔ (x ∈ t.rows ∧ key x ≠ key r) ∨ x = t.upserted r f := by
  cases h : t.find? (key r) with
  | none =>
    rw [upserted_of_find?_none h, upsert, dif_pos h, List.mem_append, List.mem_singleton]
    have hne := find?_eq_none.mp h
    constructor
    · rintro (hx | hx)
      · exact Or.inl ⟨hx, hne x hx⟩
      · exact Or.inr hx
    · rintro (hx | hx)
      · exact Or.inl hx.1
      · exact Or.inr hx
  | some o =>
    have ho := find?_eq_some.mp h
    rw [upserted_of_find?_some h, upsert, dif_neg (by simp [h]), mem_update]
    constructor
    · rintro ⟨y, hy, rfl⟩
      by_cases hk : key y = key r
      · have hyo : y = o := t.eq_of_key_eq hy ho.1 (hk.trans ho.2.symm)
        exact Or.inr (by simp [hyo, ho.2])
      · exact Or.inl (by simp [hk, hy])
    · rintro (⟨hx, hk⟩ | rfl)
      · exact ⟨x, hx, by simp [hk]⟩
      · exact ⟨o, ho.1, by simp [ho.2]⟩

theorem rows_upsert_of_find?_none (h : t.find? (key r) = none) :
    (t.upsert r f hf).rows = t.rows ++ [r] := by
  rw [upsert, dif_pos h]

/-- An upsert that leaves the stored row as it is leaves the table as it is. -/
theorem upsert_eq_self {o : ρ} (h : t.find? (key r) = some o) (hfo : f o = o) :
    t.upsert r f hf = t := by
  rw [upsert, dif_neg (by simp [h])]
  apply update_eq_self
  intro x hx hk
  obtain ⟨ho, hko⟩ := find?_eq_some.mp h
  rw [t.eq_of_key_eq hx ho ((of_decide_eq_true hk).trans hko.symm), hfo]

theorem find?_upsert_self : (t.upsert r f hf).find? (key r) = some (t.upserted r f) :=
  find?_eq_some.mpr ⟨mem_upsert.mpr (Or.inr rfl), key_upserted hf⟩

theorem find?_upsert_of_ne {k : κ} (hk : k ≠ key r) :
    (t.upsert r f hf).find? k = t.find? k := by
  ext x
  rw [find?_eq_some, find?_eq_some, mem_upsert]
  constructor
  · rintro ⟨⟨hx, _⟩ | rfl, hxk⟩
    · exact ⟨hx, hxk⟩
    · exact absurd ((key_upserted hf).symm.trans hxk).symm hk
  · rintro ⟨hx, rfl⟩
    exact ⟨Or.inl ⟨hx, hk⟩, rfl⟩

/-! ## Restriction -/

section Restrict

omit [DecidableEq κ] in
theorem ext_rows {t t' : KeyedTable key} (h : t.rows = t'.rows) : t = t' := by
  obtain ⟨rows, nodup⟩ := t
  obtain rfl : rows = t'.rows := h
  rfl

def restrict (t : KeyedTable key) (p : ρ → Bool) : KeyedTable key := t.delete (fun r => !p r)

variable {p q : ρ → Bool}

omit [DecidableEq κ] in
@[simp] theorem rows_restrict : (t.restrict p).rows = t.rows.filter p := by
  simp [restrict, delete]

omit [DecidableEq κ] in
theorem mem_restrict : r ∈ (t.restrict p).rows ↔ r ∈ t.rows ∧ p r = true := by
  rw [rows_restrict, List.mem_filter]

theorem find?_restrict {k : κ} (h : ∀ o ∈ t.rows, key o = k → p o = true) :
    (t.restrict p).find? k = t.find? k := by
  cases hfind : t.find? k with
  | none =>
    rw [find?_eq_none] at hfind ⊢
    exact fun o ho => hfind o (mem_restrict.mp ho).1
  | some o =>
    obtain ⟨ho, rfl⟩ := find?_eq_some.mp hfind
    exact find?_isSome_of_mem (mem_restrict.mpr ⟨ho, h o ho rfl⟩)

omit [DecidableEq κ] in
theorem restrict_update (hp : ∀ o, p (f o) = p o) :
    (t.update q f hf).restrict p = (t.restrict p).update q f hf := by
  apply ext_rows
  have hmap (o : ρ) : p (if q o then f o else o) = p o := by
    split_ifs <;> simp [hp]
  simp only [rows_restrict, update, mapRows, List.filter_map]
  exact congrArg _ (List.filter_congr fun o _ => hmap o)

omit [DecidableEq κ] in
theorem restrict_update_of_dropped (hp : ∀ o, p (f o) = p o)
    (hq : ∀ o ∈ t.rows, q o = true → p o = false) :
    (t.update q f hf).restrict p = t.restrict p := by
  rw [restrict_update hp]
  apply ext_rows
  rw [update, mapRows]
  refine (List.map_congr_left fun o ho => ?_).trans (List.map_id _)
  obtain ⟨ho, hkept⟩ := mem_restrict.mp ho
  have hnot : ¬ q o = true := fun hqo => by simp [hq o ho hqo] at hkept
  rw [if_neg hnot, id]

omit [DecidableEq κ] in
theorem restrict_delete : (t.delete q).restrict p = (t.restrict p).delete q := by
  apply ext_rows
  simp only [rows_restrict, delete, List.filter_filter]
  exact List.filter_congr fun o _ => Bool.and_comm _ _

omit [DecidableEq κ] in
theorem restrict_delete_of_dropped (hq : ∀ o ∈ t.rows, q o = true → p o = false) :
    (t.delete q).restrict p = t.restrict p := by
  rw [restrict_delete]
  apply delete_eq_self
  intro o ho
  obtain ⟨ho, hkept⟩ := mem_restrict.mp ho
  by_contra hqo
  simp [hq o ho (by simpa using hqo)] at hkept

theorem restrict_upsert (hp : ∀ o, p (f o) = p o) (hr : p r = true)
    (h : ∀ o ∈ t.rows, key o = key r → p o = true) :
    (t.upsert r f hf).restrict p = (t.restrict p).upsert r f hf := by
  have hfind := find?_restrict h
  by_cases hnone : t.find? (key r) = none
  · apply ext_rows
    rw [rows_restrict, rows_upsert_of_find?_none hnone,
      rows_upsert_of_find?_none (hfind.trans hnone)]
    simp [hr]
  · have hsome : ¬ (t.restrict p).find? (key r) = none := fun h => hnone (hfind.symm.trans h)
    rw [upsert, dif_neg hnone, upsert, dif_neg hsome]
    exact restrict_update hp

theorem restrict_upsert_of_dropped (hp : ∀ o, p (f o) = p o) (hr : p r = false)
    (h : ∀ o ∈ t.rows, key o = key r → p o = false) :
    (t.upsert r f hf).restrict p = t.restrict p := by
  unfold upsert
  split_ifs
  · apply ext_rows
    simp [hr]
  · exact restrict_update_of_dropped hp fun o ho hkey => h o ho (of_decide_eq_true hkey)

end Restrict

end KeyedTable
end RemotierSync
