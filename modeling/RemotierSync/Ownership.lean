import RemotierSync.Reference

/-!
# Who may share a group

Handlers that read the shares table take for granted that a group has one owner. Nothing checks
it: any account may create a share of any group, and a create for a member who already holds one
replaces the key wrapped for that member. The invariant and the refusal of strangers hold in
exactly those runs in which every create for a shared group comes from its owner, or is refused
for a reason that has nothing to do with ownership.
-/

namespace RemotierSync.Ownership

open SqliteStore Server

def OneOwner (db : SqliteDb) : Prop :=
  ∀ s ∈ db.shares.rows, ∀ s' ∈ db.shares.rows, s.groupId = s'.groupId → s.ownerId = s'.ownerId

/-- A create for a group that somebody else shares already is refused, and no share row of the
group changes. -/
def StrangersRefused (P : Platform) (cfg : Config) (db : SqliteDb) (a : Arrival) : Prop :=
  ∀ c ∈ a.creates, ∀ s ∈ db.shares.rows, s.groupId = c.2.groupId →
    s.ownerId ≠ c.1.accountId →
    (Shares.runCreate P a.now c.1 c.2 db).1 ≠ .ok () ∧
      ∀ s' : ShareEntry, s'.groupId = c.2.groupId →
        (s' ∈ (serve P cfg db a).shares.rows ↔ s' ∈ db.shares.rows)

/-- In every state of the run groups have one owner, and every request of the run respects
it. -/
def OnlyOwnersShare (P : Platform) (cfg : Config) (arrivals : List Arrival) : Prop :=
  (∀ before after, arrivals = before ++ after → OneOwner (reached P cfg before)) ∧
    History.Always (serve P cfg) .migrated (StrangersRefused P cfg) arrivals

/-- A create for a shared group comes from the owner its shares name, or the code refuses it. -/
def FromOwnerOrRefused (db : SqliteDb) (a : Arrival) : Prop :=
  ∀ c ∈ a.creates, ∀ s ∈ db.shares.rows, s.groupId = c.2.groupId →
    s.ownerId = c.1.accountId ∨ Shares.Refused c.1 c.2 db

instance (db : SqliteDb) (a : Arrival) : Decidable (FromOwnerOrRefused db a) :=
  Option.decidableForallMem _

variable {P : Platform} {cfg : Config} {db : SqliteDb} {a : Arrival} {arrivals : List Arrival}

theorem strangersRefused_iff :
    StrangersRefused P cfg db a ↔ FromOwnerOrRefused db a := by
  constructor
  · intro h c hc s hs hgroup
    by_cases howner : s.ownerId = c.1.accountId
    · exact Or.inl howner
    · have herror := (h c hc s hs hgroup howner).1
      exact Or.inr (by simpa using (not_congr Shares.create_ok_iff).mp herror)
  · intro h c hc s hs hgroup hstranger
    have hrefused := (h c hc s hs hgroup).resolve_left hstranger
    have herror : (Shares.runCreate P a.now c.1 c.2 db).1 ≠ .ok () :=
      fun hok => Shares.create_ok_iff.mp hok hrefused
    refine ⟨herror, fun s' _ => ?_⟩
    rw [serve_create hc, Shares.create_error herror]

theorem oneOwner_serve (hdb : WellFormed db) (h : OneOwner db) (ha : FromOwnerOrRefused db a) :
    OneOwner (serve P cfg db a) := by
  have hprior : ∀ s ∈ (serve P cfg db a).shares.rows, ∀ s' ∈ (serve P cfg db a).shares.rows,
      s.groupId = s'.groupId → (∃ old ∈ db.shares.rows, old.key = s.key ∧ old.ownerId = s.ownerId) →
      s.ownerId = s'.ownerId := by
    intro s _ s' hs' hgroup ⟨old, hold, hkey, howner⟩
    have hold_group : old.groupId = s.groupId := congrArg Prod.fst hkey
    rcases share_of_serve hdb hs' with
      ⟨old', hold', hkey', howner'⟩ | ⟨caller, body, hc, hok, _, rfl⟩
    · have hold_group' : old'.groupId = s'.groupId := congrArg Prod.fst hkey'
      rw [← howner, ← howner']
      exact h old hold old' hold' (hold_group.trans (hgroup.trans hold_group'.symm))
    · rw [← howner]
      exact (ha (caller, body) hc old hold (hold_group.trans hgroup)).resolve_right hok
  intro s hs s' hs' hgroup
  rcases share_of_serve hdb hs with hold | ⟨caller, body, hc, hok, _, rfl⟩
  · exact hprior s hs s' hs' hgroup hold
  · rcases share_of_serve hdb hs' with hold' | ⟨caller', body', hc', _, _, rfl⟩
    · exact (hprior s' hs' _ hs hgroup.symm hold').symm
    · obtain ⟨rfl, rfl⟩ := Prod.mk.inj (Option.some.inj (hc.symm.trans hc'))
      rfl

theorem oneOwner_reached
    (h : History.Always (serve P cfg) .migrated FromOwnerOrRefused arrivals) :
    OneOwner (reached P cfg arrivals) := by
  refine History.run_induction (I := fun arrivals => OneOwner (reached P cfg arrivals)) ?_ ?_ h
  · intro s hs
    simp [reached] at hs
  · intro arrivals a ih ha
    rw [reached_snoc]
    exact oneOwner_serve (wellFormed_reached arrivals) ih ha

/-- Only owners share, in exactly the runs whose creates come from owners or are refused. -/
theorem onlyOwnersShare_iff (P : Platform) (cfg : Config) (arrivals : List Arrival) :
    OnlyOwnersShare P cfg arrivals ↔
      History.Always (serve P cfg) .migrated FromOwnerOrRefused arrivals := by
  constructor
  · intro h before a after he
    exact strangersRefused_iff.mp (h.2 before a after he)
  · intro h
    refine ⟨?_, fun before a after he => strangersRefused_iff.mpr (h before a after he)⟩
    rintro before after rfl
    exact oneOwner_reached (History.always_of_append h)

def keyReplaced : List Arrival := Reference.accounts ++ [
  ⟨1, .createShare ⟨"ada"⟩ ⟨"g", "bob", "wrapped by ada"⟩⟩]

theorem stranger_replaces_key :
    ¬ OnlyOwnersShare .reference Reference.config
      (keyReplaced ++ [⟨2, .createShare ⟨"carol"⟩ ⟨"g", "bob", "wrapped by carol"⟩⟩]) := by
  intro h
  have hrefused := strangersRefused_iff.mp (h.2 keyReplaced _ [] rfl)
  exact absurd hrefused (by decide +kernel)

end RemotierSync.Ownership
