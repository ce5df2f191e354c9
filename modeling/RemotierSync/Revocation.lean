import RemotierSync.Reference

/-!
# After a member is removed

Removing a share ends what the member could see through it. It ends what the member may write to
the group as long as the group has another share: the question whether an account may write to a
group is answered with yes for a group without shares, so the last member to be removed may go on
writing, but under its own account.
-/

namespace RemotierSync.Revocation

open SqliteStore Server

variable (P : Platform) (cfg : Config)

def CreatedByOwner (ownerId groupId : String) (db : SqliteDb) (a : Arrival) : Prop :=
  ∀ c ∈ a.creates, c.2.groupId = groupId → ¬ Shares.Refused c.1 c.2 db → c.1.accountId = ownerId

def NotShared (userId groupId : String) (db : SqliteDb) (a : Arrival) : Prop :=
  ∀ c ∈ a.creates, c.2.groupId = groupId → ¬ Shares.Refused c.1 c.2 db → c.2.userId ≠ userId

instance (ownerId groupId : String) (db : SqliteDb) (a : Arrival) :
    Decidable (CreatedByOwner ownerId groupId db a) :=
  Option.decidableForallMem _

instance (userId groupId : String) (db : SqliteDb) (a : Arrival) :
    Decidable (NotShared userId groupId db a) :=
  Option.decidableForallMem _

/-- Every envelope keyed to the group that the account pushes is rejected as an outsider's. -/
def KeyedPushesRejected (userId groupId : String) (db : SqliteDb) : Prop :=
  ∀ now body resp, Sync.answered P cfg ⟨userId⟩ now body db resp → ∀ e ∈ body,
    e.keyRef = .group groupId → ⟨e.id, e.kind.asStr, .notAMember⟩ ∈ resp.rejected

/-- What holds of an account that has been removed from a group of another's. -/
structure Revoked (ownerId userId groupId : String) (db : SqliteDb) : Prop where
  /-- While the group has a share, envelopes keyed to it are rejected. -/
  rejected : (∃ s ∈ db.shares.rows, s.groupId = groupId) → ∀ now body resp,
    Sync.answered P cfg ⟨userId⟩ now body db resp → ∀ e ∈ body, e.keyRef = .group groupId →
      ⟨e.id, e.kind.asStr, (Sync.refuse cfg e now).getD .notAMember⟩ ∈ resp.rejected
  /-- A row keyed to the group is added only once the group has no share, to the account itself. -/
  stored : ∀ now body, ∀ r ∈ (Sync.afterPush P cfg ⟨userId⟩ now body db).records.rows,
    r ∉ db.records.rows → r.keyRef = P.keyRefToString (.group groupId) →
      (∀ s ∈ db.shares.rows, s.groupId ≠ groupId) ∧ r.accountId = userId
  /-- Of the owner's rows, pulls return those of other groups that are shared. -/
  unseen : ∀ now cursor r, Sync.Returns P cfg ⟨userId⟩ now cursor db r → r.accountId = ownerId →
    ∃ s ∈ db.shares.rows, s.userId = userId ∧ s.groupId ≠ groupId ∧ r.groupId = some s.groupId

variable {P} {cfg} {ownerId userId groupId : String} {arrivals : List Arrival} {db : SqliteDb}

theorem owner_of_share
    (h : History.Always (serve P cfg) .migrated (CreatedByOwner ownerId groupId) arrivals) :
    ∀ s ∈ (reached P cfg arrivals).shares.rows, s.groupId = groupId → s.ownerId = ownerId := by
  refine History.run_induction (I := fun arrivals =>
    ∀ s ∈ (reached P cfg arrivals).shares.rows, s.groupId = groupId → s.ownerId = ownerId) ?_ ?_ h
  · intro s hs
    simp [reached] at hs
  · intro arrivals a ih ha s hs hgroup
    rw [reached_snoc] at hs
    rcases share_of_serve (wellFormed_reached arrivals) hs with
      ⟨old, hold, hkey, howner⟩ | ⟨caller, body, hc, hok, _, rfl⟩
    · rw [← howner]
      exact ih old hold ((congrArg Prod.fst hkey).trans hgroup)
    · exact ha (caller, body) hc hgroup hok

theorem no_share_run (hdb : WellFormed db)
    (hnone : ∀ s ∈ db.shares.rows, s.groupId = groupId → s.userId ≠ userId)
    (h : History.Always (serve P cfg) db (NotShared userId groupId) arrivals) :
    WellFormed (History.run (serve P cfg) db arrivals) ∧
      ∀ s ∈ (History.run (serve P cfg) db arrivals).shares.rows, s.groupId = groupId →
        s.userId ≠ userId := by
  refine History.run_induction (I := fun arrivals =>
    WellFormed (History.run (serve P cfg) db arrivals) ∧
      ∀ s ∈ (History.run (serve P cfg) db arrivals).shares.rows, s.groupId = groupId →
        s.userId ≠ userId) ⟨hdb, hnone⟩ ?_ h
  rintro arrivals a ⟨hwf, ih⟩ ha
  rw [History.run_snoc]
  refine ⟨wellFormed_serve hwf, ?_⟩
  intro s hs hgroup
  rcases share_of_serve hwf hs with ⟨old, hold, hkey, _⟩ | ⟨caller, body, hc, hok, _, rfl⟩
  · obtain ⟨hg, hu⟩ := Prod.mk.inj hkey
    rw [← hu]
    exact ih old hold (hg.trans hgroup)
  · exact ha (caller, body) hc hgroup hok

/-- To an account that neither owns nor holds a share of a shared group, the group is closed. -/
theorem route_of_outsider {now : ℤ} {e : Envelope}
    (hout : ∀ s ∈ db.shares.rows, s.groupId = groupId → s.ownerId ≠ userId ∧ s.userId ≠ userId)
    (hshared : ∃ s ∈ db.shares.rows, s.groupId = groupId) (hkey : e.keyRef = .group groupId) :
    Sync.route P cfg ⟨userId⟩ now db.toTables e =
      .error ((Sync.refuse cfg e now).getD .notAMember) := by
  have hclosed : db.canWriteGroup userId groupId ≠ true := by
    rw [ne_eq, Tables.canWriteGroup_iff]
    rintro (hnone | ⟨s, hs, hgroup, hmine⟩)
    · obtain ⟨s, hs, hgroup⟩ := hshared
      exact hnone s hs hgroup
    · exact hmine.elim (hout s hs hgroup).1 (hout s hs hgroup).2
  unfold Sync.route
  cases hr : Sync.refuse cfg e now with
  | some reason => rfl
  | none =>
    rw [hkey]
    exact if_neg hclosed

theorem revoked_of_no_share (hdb : WellFormed db) (hne : userId ≠ ownerId)
    (howner : ∀ s ∈ db.shares.rows, s.groupId = groupId → s.ownerId = ownerId)
    (hnone : ∀ s ∈ db.shares.rows, s.groupId = groupId → s.userId ≠ userId) :
    Revoked P cfg ownerId userId groupId db := by
  have hout : ∀ s ∈ db.shares.rows, s.groupId = groupId →
      s.ownerId ≠ userId ∧ s.userId ≠ userId := by
    intro s hs hgroup
    rw [howner s hs hgroup]
    exact ⟨hne.symm, hnone s hs hgroup⟩
  refine ⟨?_, ?_, ?_⟩
  · intro hshared now body resp hresp e he hkey
    have hreps := (Sync.push_answered hresp).2
    exact hreps.refused e he _ (route_of_outsider hout hshared hkey)
  · intro now body r hr hnew hkey
    obtain ⟨e, _, htakes, hrow, _⟩ := Sync.new_row_of_push hdb hr hnew
    obtain ⟨_, hroute, _, _⟩ := Sync.filed_of_takes htakes
    have hkeyed : e.keyRef = .group groupId := by
      apply P.keyRefToString_injective
      rw [← hkey, hrow]
      rfl
    have hunshared : ∀ s ∈ db.shares.rows, s.groupId ≠ groupId := by
      intro s hs hgroup
      rw [route_of_outsider hout ⟨s, hs, hgroup⟩ hkeyed] at hroute
      exact absurd hroute (by simp)
    refine ⟨hunshared, ?_⟩
    by_contra hforeign
    obtain ⟨g, hg, ho, _⟩ := Sync.route_foreign hroute hforeign
    obtain rfl : groupId = g := KeyRef.group.inj (hkeyed.symm.trans hg)
    rw [Tables.shareOwner_eq_none.mpr hunshared] at ho
    exact absurd ho (by simp)
  · intro now cursor r hreturns hacc
    have hvis := Sync.visible_of_returns hdb.distinct hreturns
    rcases Tables.visible_iff.mp hvis with hown | ⟨g, hg, hshared⟩
    · exact absurd (hown.symm.trans hacc) hne
    · obtain ⟨s, hs, rfl, huser⟩ := Tables.mem_sharedWith.mp hshared
      exact ⟨s, hs, huser, fun hgroup => hnone s hs hgroup huser, hg⟩

/-- An account that its owner has removed from a group stays removed until it is admitted
again. -/
theorem revoked_after_removal (P : Platform) (cfg : Config) (ownerId userId groupId : String)
    (hne : userId ≠ ownerId) (before after : List Arrival) (a : Arrival)
    (hremove : a.removes = some (⟨ownerId⟩, groupId, userId))
    (hcreated : History.Always (serve P cfg) .migrated (CreatedByOwner ownerId groupId)
      (before ++ a :: after))
    (hnot : History.Always (serve P cfg) (reached P cfg (before ++ [a]))
      (NotShared userId groupId) after) :
    Revoked P cfg ownerId userId groupId (reached P cfg (before ++ a :: after)) := by
  have hnone : ∀ s ∈ (reached P cfg (before ++ [a])).shares.rows, s.groupId = groupId →
      s.userId ≠ userId := by
    intro s hs hgroup huser
    rw [reached_snoc, serve_remove hremove] at hs
    obtain ⟨hold, hkept⟩ := Shares.mem_remove.mp hs
    exact hkept ⟨hgroup, owner_of_share (History.always_of_append hcreated) s hold hgroup, huser⟩
  obtain ⟨hwf, hafter⟩ := no_share_run (wellFormed_reached (before ++ [a])) hnone hnot
  have howner := owner_of_share hcreated
  rw [reached_append_cons] at howner ⊢
  exact revoked_of_no_share hwf hne howner hafter

section Runs

open Reference

def onlyMember : List Arrival := accounts ++ [
  ⟨1, .createShare ⟨"ada"⟩ ⟨"g", "bob", "wrapped"⟩⟩]

def removeBob : Arrival := ⟨2, .removeShare ⟨"ada"⟩ "g" "bob"⟩

theorem last_member_still_writes :
    History.Always (serve .reference config) .migrated (CreatedByOwner "ada" "g")
        (onlyMember ++ [removeBob]) ∧
      ¬ KeyedPushesRejected .reference config "bob" "g"
        (reached .reference config (onlyMember ++ [removeBob])) := by
  refine ⟨by decide +kernel, ?_⟩
  intro h
  have hrejected := h 3 [sharedHost 5] ⟨[⟨"h", "host", 1⟩], [], 1⟩ (by decide +kernel)
    (sharedHost 5) (by simp) rfl
  exact absurd hrejected (by simp)

/-- Carol stays in the group when Bob is removed, and Ada goes on writing. -/
theorem bob_revoked : Revoked .reference config "ada" "bob" "g"
    (reached .reference config
      ((onlyMember ++ [⟨1, .createShare ⟨"ada"⟩ ⟨"g", "carol", "wrapped"⟩⟩]) ++
        removeBob :: [⟨3, .push ⟨"ada"⟩ [sharedHost 5]⟩])) :=
  revoked_after_removal .reference config "ada" "bob" "g" (by decide) _ _ removeBob rfl
    (by decide +kernel) (by decide +kernel)

end Runs

end RemotierSync.Revocation
