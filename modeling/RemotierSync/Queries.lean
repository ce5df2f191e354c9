import RemotierSync.Store

/-!
# What the queries leave

Each statement changes one table. The rows that an upsert leaves are characterised once for each
table that a handler reads back, and what `pull` can see and who may write a group are stated in
terms of the rows of shares.
-/

namespace RemotierSync.Tables

variable (P : Platform) (now : ℤ) (t : Tables)

section Frames

variable {t}

theorem createAccount_frame (emailEq : String → String → Bool) (id : String) (new : NewAccount) :
    ∃ accounts, (t.createAccount P emailEq id new).2 = { t with accounts := accounts } := by
  unfold createAccount
  dsimp only
  split_ifs
  · exact ⟨t.accounts, rfl⟩
  · split <;> exact ⟨_, rfl⟩

theorem putToken_frame (hash accountId kind : String) (expiresAt : ℤ) :
    ∃ tokens, (t.putToken hash accountId kind expiresAt).2 = { t with tokens := tokens } := by
  unfold putToken
  split_ifs <;> exact ⟨_, rfl⟩

theorem putShare_frame (ownerId groupId userId wrapped : String) :
    ∃ shares, (t.putShare now ownerId groupId userId wrapped).2 = { t with shares := shares } := by
  unfold putShare
  split_ifs <;> exact ⟨_, rfl⟩

theorem touchDevice_frame (accountId deviceId name : String) :
    ∃ devices, (t.touchDevice now accountId deviceId name).2 = { t with devices := devices } := by
  unfold touchDevice
  split_ifs <;> exact ⟨_, rfl⟩

theorem createAccount_keeps_account {emailEq : String → String → Bool} {id id' : String}
    {new : NewAccount} (h : t.accountById id ≠ none) :
    (t.createAccount P emailEq id' new).2.accountById id ≠ none := by
  have hkeep (a : Account) :
      (t.accounts.upsert a (fun a => a) (fun _ => rfl)).find? id ≠ none := by
    by_cases hid : id = a.id
    · rw [hid, KeyedTable.find?_upsert_self]
      simp
    · rwa [KeyedTable.find?_upsert_of_ne hid]
  unfold createAccount
  dsimp only
  split_ifs
  · exact h
  · split <;> exact hkeep _

theorem rewrapAccount_keeps_account {id id' : String} {new : NewAccount}
    (h : t.accountById id ≠ none) : (t.rewrapAccount id' new).accountById id ≠ none := by
  obtain ⟨a, ha⟩ := Option.ne_none_iff_exists'.mp h
  obtain ⟨hmem, hid⟩ := KeyedTable.find?_eq_some.mp ha
  have hupdated : (if decide (a.id = id') = true then a.rewrap new else a) ∈
      (t.rewrapAccount id' new).accounts.rows := List.mem_map.mpr ⟨a, hmem, rfl⟩
  intro hnone
  apply KeyedTable.find?_eq_none.mp hnone _ hupdated
  split_ifs <;> exact hid

end Frames

section CreateAccount

variable {P t} {emailEq : String → String → Bool} {id : String} {new : NewAccount}

def newAccount (P : Platform) (id : String) (new : NewAccount) : Account where
  id := id
  email := P.toLowercase (trim new.email)
  authHash := new.authHash
  recoveryAuthHash := new.recoveryAuthHash
  accountPublic := new.accountPublic
  wrappedAccountSecret := new.wrappedAccountSecret
  wrappedPersonalKey := new.wrappedPersonalKey
  recoveryAccountSecret := new.recoveryAccountSecret
  recoveryPersonalKey := new.recoveryPersonalKey

def Free (P : Platform) (emailEq : String → String → Bool) (t : Tables) (id email : String) :
    Prop :=
  ∀ a ∈ t.accounts.rows, a.id ≠ id ∧ emailEq a.email (P.toLowercase (trim email)) = false

instance (P : Platform) (emailEq : String → String → Bool) (t : Tables) (id email : String) :
    Decidable (Free P emailEq t id email) :=
  inferInstanceAs (Decidable (∀ a ∈ t.accounts.rows, _))

theorem createAccount_of_not_free (h : ¬ t.Free P emailEq id new.email) :
    t.createAccount P emailEq id new = (.error .emailTaken, t) := by
  unfold Free at h
  unfold createAccount
  dsimp only
  apply if_pos
  rw [List.any_eq_true]
  push Not at h
  obtain ⟨a, ha, htaken⟩ := h
  refine ⟨a, ha, ?_⟩
  by_cases hid : a.id = id
  · simp [hid]
  · simpa [hid] using htaken hid

theorem createAccount_of_free (h : t.Free P emailEq id new.email) :
    t.createAccount P emailEq id new = (.ok (newAccount P id new), { t with
      accounts := t.accounts.upsert (newAccount P id new) (fun a => a) (fun _ => rfl) }) := by
  have hfree : ¬ (t.accounts.rows.any fun a =>
      a.id = id || emailEq a.email (P.toLowercase (trim new.email))) = true := by
    rw [List.any_eq_true]
    rintro ⟨a, ha, htaken⟩
    obtain ⟨hid, hemail⟩ := h a ha
    simp [hid, hemail] at htaken
  have hnone : t.accounts.find? id = none := KeyedTable.find?_eq_none.mpr (fun a ha => (h a ha).1)
  have hfound : (t.accounts.upsert (newAccount P id new) (fun a => a) (fun _ => rfl)).find? id =
      some (newAccount P id new) := by
    have hself : (t.accounts.upsert (newAccount P id new) (fun a => a) (fun _ => rfl)).find? id =
        some (t.accounts.upserted (newAccount P id new) (fun a => a)) :=
      KeyedTable.find?_upsert_self
    rwa [KeyedTable.upserted_of_find?_none hnone] at hself
  unfold createAccount
  dsimp only
  rw [if_neg hfree]
  split
  · next account hsome =>
    obtain rfl : newAccount P id new = account := Option.some.inj (hfound.symm.trans hsome)
    rfl
  · next hvanished => exact absurd (hfound.symm.trans hvanished) (by simp)

theorem rows_of_free (h : t.Free P emailEq id new.email) :
    (t.accounts.upsert (newAccount P id new) (fun a => a) (fun _ => rfl)).rows =
      t.accounts.rows ++ [newAccount P id new] :=
  KeyedTable.rows_upsert_of_find?_none
    (KeyedTable.find?_eq_none.mpr (fun a ha => (h a ha).1))

theorem mem_rewrapAccount {account : Account} :
    account ∈ (t.rewrapAccount id new).accounts.rows ↔
      ∃ old ∈ t.accounts.rows, (if old.id = id then old.rewrap new else old) = account := by
  rw [rewrapAccount, KeyedTable.mem_update]
  simp only [decide_eq_true_eq]

end CreateAccount

section Tokens

variable {t} {now : ℤ} {row : TokenEntry} {accountId deviceId name : String}

/-- The tokens with one more, or with one whose time is put off. -/
def storeToken (tokens : KeyedTable TokenEntry.hash) (row : TokenEntry) :
    KeyedTable TokenEntry.hash :=
  tokens.upsert row (TokenEntry.extend row.expiresAt) (TokenEntry.extend_hash row.expiresAt)

theorem putToken_of_account (hkind : row.kind = "access" ∨ row.kind = "refresh")
    (haccount : t.accountById row.accountId ≠ none) :
    t.putToken row.hash row.accountId row.kind row.expiresAt =
      (.ok (), { t with tokens := storeToken t.tokens row }) := by
  unfold putToken
  rw [if_neg (fun h => hkind.elim h.1 h.2), if_neg (fun h => haccount h.2)]
  rfl

theorem isLive_iff {hash kind : String} : isLive now hash kind row = true ↔
    row.hash = hash ∧ row.kind = kind ∧ now < row.expiresAt := by
  simp only [isLive, Bool.and_eq_true, decide_eq_true_eq, and_assoc, gt_iff_lt]

theorem consumeToken_of_none {hash kind : String} (h : t.takeToken now hash kind = none) :
    t.consumeToken now hash kind = (none, t) := by
  rw [takeToken, Option.map_eq_none_iff, List.find?_eq_none] at h
  have hkept : t.tokens.delete (isLive now hash kind) = t.tokens :=
    KeyedTable.delete_eq_self (fun row hrow => by simpa using h row hrow)
  rw [consumeToken, hkept, takeToken, Option.map_eq_none_iff.mpr (List.find?_eq_none.mpr h)]

theorem touchDevice_of_account (haccount : t.accountById accountId ≠ none) :
    ∃ devices, t.touchDevice now accountId deviceId name =
      (.ok (), { t with devices := devices }) := by
  unfold touchDevice
  rw [if_neg (fun h => haccount h.2)]
  exact ⟨_, rfl⟩

end Tokens

section PutRecord

variable {t} {textGt : String → String → Bool} {x : RecordEntry}

/-- The row has an account to reference, or one stored before it that had. -/
def Fileable (t : Tables) (x : RecordEntry) : Prop :=
  ¬ (t.records.find? x.key = none ∧ t.accountById x.accountId = none)

theorem putRecord_of_not_fileable (h : ¬ t.Fileable x) :
    t.putRecord textGt x = (.error .db, t) :=
  if_pos (not_not.mp h)

theorem putRecord_of_fileable (h : t.Fileable x) :
    t.putRecord textGt x = (.ok (if t.replaces textGt x then some x.seq else none),
      { t with records := t.upsertRecord textGt x }) :=
  if_neg h

theorem find?_upsertRecord (k : String × String × String) :
    (t.upsertRecord textGt x).find? k =
      if k = x.key ∧ t.replaces textGt x then some x else t.records.find? k := by
  unfold upsertRecord
  by_cases hk : k = x.key
  · subst hk
    rw [KeyedTable.find?_upsert_self]
    cases hs : t.records.find? x.key with
    | none => simp [KeyedTable.upserted_of_find?_none hs, replaces, hs]
    | some stored =>
      have hset := RecordEntry.set_eq_of_key_eq (KeyedTable.find?_key_eq hs)
      rw [KeyedTable.upserted_of_find?_some hs, RecordEntry.merge, hset]
      by_cases hb : x.beats textGt stored
      · simp [replaces, hs, hb]
      · simp [replaces, hs, hb]
  · rw [KeyedTable.find?_upsert_of_ne hk, if_neg (fun h => hk h.1)]

theorem upsertRecord_of_not_replaces (h : t.replaces textGt x = false) :
    t.upsertRecord textGt x = t.records := by
  cases hs : t.records.find? x.key with
  | none => simp [replaces, hs] at h
  | some stored =>
    rw [replaces, hs] at h
    apply KeyedTable.upsert_eq_self hs
    rw [RecordEntry.merge, if_neg (Bool.not_eq_true _ ▸ h)]

theorem mem_upsertRecord {r : RecordEntry} (hr : r ∈ (t.upsertRecord textGt x).rows) :
    r ∈ t.records.rows ∨ (r = x ∧ t.replaces textGt x = true) := by
  have hfind := KeyedTable.find?_isSome_of_mem hr
  rw [find?_upsertRecord] at hfind
  split_ifs at hfind with h
  · exact Or.inr ⟨(Option.some.inj hfind).symm, h.2⟩
  · exact Or.inl (KeyedTable.find?_eq_some.mp hfind).1

end PutRecord

section Shares

variable {P t} {now : ℤ} {s : ShareEntry} {groupId ownerId userId wrapped accountId : String}

theorem mem_sharedWith : groupId ∈ t.sharedWith userId ↔
    ∃ s ∈ t.shares.rows, s.groupId = groupId ∧ s.userId = userId := by
  simp only [sharedWith, List.mem_map, List.mem_filter, decide_eq_true_eq]
  constructor
  · rintro ⟨s, ⟨hs, hu⟩, hg⟩
    exact ⟨s, hs, hg, hu⟩
  · rintro ⟨s, hs, hg, hu⟩
    exact ⟨s, ⟨hs, hu⟩, hg⟩

/-- A row is visible to its account and to the members of the group its hint names. -/
theorem visible_iff {r : RecordEntry} : t.visible accountId r = true ↔
    r.accountId = accountId ∨ ∃ g, r.groupId = some g ∧ g ∈ t.sharedWith accountId := by
  simp only [visible, Bool.or_eq_true, decide_eq_true_eq, Option.any_eq_true_iff_get]
  cases r.groupId <;> simp

theorem mem_pullRows {r : RecordEntry} {cursor : ℤ} : r ∈ t.pullRows accountId cursor ↔
    (r ∈ t.records.rows ∧ t.visible accountId r = true) ∧ cursor < r.seq := by
  rw [pullRows, ChangeLog.mem_after, List.mem_filter]

@[simp] theorem mem_deleteShare : s ∈ (t.deleteShare ownerId groupId userId).shares.rows ↔
    s ∈ t.shares.rows ∧ ¬ (s.groupId = groupId ∧ s.ownerId = ownerId ∧ s.userId = userId) := by
  rw [deleteShare, KeyedTable.mem_delete]
  simp only [Bool.and_eq_false_iff, decide_eq_false_iff_not]
  tauto

theorem putShare_error (h : (t.putShare now ownerId groupId userId wrapped).1 ≠ .ok ()) :
    t.putShare now ownerId groupId userId wrapped = (.error .db, t) := by
  unfold putShare at h ⊢
  split_ifs at h ⊢ with hfk
  · rfl
  · exact absurd rfl h

/-- The share row an upsert leaves under its key: an existing row keeps its owner. -/
theorem mem_putShare (h : (t.putShare now ownerId groupId userId wrapped).1 = .ok ()) :
    s ∈ (t.putShare now ownerId groupId userId wrapped).2.shares.rows ↔
      (s ∈ t.shares.rows ∧ s.key ≠ (groupId, userId)) ∨
        s = match t.shares.find? (groupId, userId) with
          | none => ⟨groupId, ownerId, userId, wrapped, now⟩
          | some old => old.rewrap wrapped := by
  unfold putShare at h ⊢
  split_ifs at h ⊢ with hfk
  rw [KeyedTable.mem_upsert]
  apply or_congr Iff.rfl
  cases hs : t.shares.find? (groupId, userId) with
  | none => rw [KeyedTable.upserted_of_find?_none hs]
  | some old => rw [KeyedTable.upserted_of_find?_some hs]

theorem canWriteGroup_iff : t.canWriteGroup accountId groupId = true ↔
    (∀ s ∈ t.shares.rows, s.groupId ≠ groupId) ∨
      ∃ s ∈ t.shares.rows, s.groupId = groupId ∧
        (s.ownerId = accountId ∨ s.userId = accountId) := by
  simp [canWriteGroup]

theorem shareOwner_eq_some (h : t.shareOwner P groupId = some ownerId) :
    ∃ s ∈ t.shares.rows, s.groupId = groupId ∧ s.ownerId = ownerId := by
  obtain ⟨s, hs, rfl⟩ := Option.map_eq_some_iff.mp h
  have hmem := P.mem_of_limitOne hs
  simp only [List.mem_filter, decide_eq_true_eq] at hmem
  exact ⟨s, hmem.1, hmem.2, rfl⟩

theorem shareOwner_eq_none :
    t.shareOwner P groupId = none ↔ ∀ s ∈ t.shares.rows, s.groupId ≠ groupId := by
  constructor
  · intro h s hs hg
    have hnil := P.limitOne_eq_none (Option.map_eq_none_iff.mp h)
    simp only [List.filter_eq_nil_iff, decide_eq_true_eq] at hnil
    exact hnil s hs hg
  · intro h
    cases ho : t.shareOwner P groupId with
    | none => rfl
    | some ownerId =>
      obtain ⟨s, hs, hg, _⟩ := shareOwner_eq_some ho
      exact absurd hg (h s hs)

end Shares

end RemotierSync.Tables
