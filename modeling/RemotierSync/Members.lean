import RemotierSync.Reference

/-!
# What the owner's share operations mean

The row of a share is found by group and member, but listed and removed by group, member and
owner, and an upsert keeps the owner of the row it finds. A create therefore means what it
answers exactly if the row it finds, if any, is the caller's own: then the caller lists the
member, and the member is handed the key. The row stays the caller's until the caller removes it,
so that its removal ends what the member sees through the group.
-/

namespace RemotierSync.Members

open SqliteStore Server

variable (P : Platform) (cfg : Config)

/-- The caller's list of the group shows the member with this key. -/
def Listed (caller : Caller) (body : ShareRequest) (db : SqliteDb) : Prop :=
  ∀ now, ∃ shares, (Program.run (exec P now) (Shares.list caller body.groupId) db).1 = .ok shares ∧
    ∃ s ∈ shares, s.groupId = body.groupId ∧ s.ownerId = caller.accountId ∧
      s.userId = body.userId ∧ s.wrappedGroupKey = body.wrappedGroupKey

/-- The member's own list shows the group with the caller as owner and this key. -/
def Handed (caller : Caller) (body : ShareRequest) (db : SqliteDb) : Prop :=
  ∀ now, ∃ shares, (Program.run (exec P now) (Shares.mine ⟨body.userId⟩) db).1 = .ok shares ∧
    ∃ s ∈ shares, s.groupId = body.groupId ∧ s.ownerId = caller.accountId ∧
      s.userId = body.userId ∧ s.wrappedGroupKey = body.wrappedGroupKey

/-- The account holds no share of the group, and sees no row of the owner's through it. -/
structure Outside (ownerId groupId userId : String) (db : SqliteDb) : Prop where
  unshared : ∀ s ∈ db.shares.rows, s.groupId = groupId → s.userId ≠ userId
  unseen : ∀ now cursor r, Sync.Returns P cfg ⟨userId⟩ now cursor db r → r.accountId = ownerId →
    r.groupId ≠ some groupId

/-- A create that has answered is in force, and after later requests so is the caller's removal of
the member. -/
structure InForce (arrivals : List Arrival) (a : Arrival) (later : List Arrival) (caller : Caller)
    (body : ShareRequest) : Prop where
  listed : Listed P caller body (reached P cfg (arrivals ++ [a]))
  handed : Handed P caller body (reached P cfg (arrivals ++ [a]))
  removed : ∀ b : Arrival, b.removes = some (caller, body.groupId, body.userId) →
    Outside P cfg caller.accountId body.groupId body.userId
      (reached P cfg (arrivals ++ a :: later ++ [b]))

/-- The share that stands between the group and the member, if any, is the caller's. -/
def Own (caller : Caller) (body : ShareRequest) (db : SqliteDb) : Prop :=
  ∀ s ∈ db.shares.rows, s.key = (body.groupId, body.userId) → s.ownerId = caller.accountId

instance (caller : Caller) (body : ShareRequest) (db : SqliteDb) : Decidable (Own caller body db) :=
  inferInstanceAs (Decidable (∀ s ∈ db.shares.rows, _))

def RemovedIn (caller : Caller) (body : ShareRequest) (later : List Arrival) : Prop :=
  ∃ c ∈ later, c.removes = some (caller, body.groupId, body.userId)

/-- The caller shares the group with the member. -/
def Stands (caller : Caller) (groupId userId : String) (db : SqliteDb) : Prop :=
  ∃ s ∈ db.shares.rows, s.key = (groupId, userId) ∧ s.ownerId = caller.accountId

variable {P} {cfg} {caller : Caller} {body : ShareRequest} {db : SqliteDb} {a : Arrival}
  {arrivals : List Arrival} {groupId userId : String} {now : ℤ}

/-! ## What the lists show -/

theorem run_list : (Program.run (exec P now) (Shares.list caller groupId) db).1 =
    .ok ((db.sharesForGroup P caller.accountId groupId).map Shares.share) := by
  unfold Shares.list
  rw [Program.run_bind_ok _ (run_ask _ _ _)]
  rfl

theorem run_mine : (Program.run (exec P now) (Shares.mine caller) db).1 =
    .ok ((db.sharesForUser P caller.accountId).map Shares.share) := by
  unfold Shares.mine
  rw [Program.run_bind_ok _ (run_ask _ _ _)]
  rfl

theorem mem_sharesForGroup {ownerId : String} {row : ShareRow} :
    row ∈ db.sharesForGroup P ownerId groupId ↔
      ∃ s ∈ db.shares.rows, s.groupId = groupId ∧ s.ownerId = ownerId ∧
        ∃ account, db.accountById s.userId = some account ∧ Tables.shareRow s account = row := by
  simp [Tables.sharesForGroup, List.mem_filterMap, and_assoc]

theorem mem_sharesForUser {row : ShareRow} :
    row ∈ db.sharesForUser P userId ↔
      ∃ s ∈ db.shares.rows, s.userId = userId ∧
        ∃ account, db.accountById s.ownerId = some account ∧ Tables.shareRow s account = row := by
  simp [Tables.sharesForUser, List.mem_filterMap, and_assoc]

theorem listed_iff (hdb : WellFormed db) : Listed P caller body db ↔
    ∃ s ∈ db.shares.rows, s.key = (body.groupId, body.userId) ∧
      s.ownerId = caller.accountId ∧ s.wrappedGroupKey = body.wrappedGroupKey := by
  constructor
  · intro h
    obtain ⟨shares, hrun, share, hshare, hgroup, howner, huser, hwrapped⟩ := h 0
    obtain rfl := Except.ok.inj (run_list.symm.trans hrun)
    obtain ⟨row, hrow, rfl⟩ := List.mem_map.mp hshare
    obtain ⟨s, hs, _, _, account, _, rfl⟩ := mem_sharesForGroup.mp hrow
    exact ⟨s, hs, Prod.ext hgroup huser, howner, hwrapped⟩
  · rintro ⟨s, hs, hkey, howner, hwrapped⟩ now
    obtain ⟨hgroup, huser⟩ := Prod.mk.inj hkey
    obtain ⟨account, haccount⟩ := Option.ne_none_iff_exists'.mp (hdb.share_accounts s hs).2
    refine ⟨_, run_list, _, List.mem_map_of_mem (mem_sharesForGroup.mpr
      ⟨s, hs, hgroup, howner, account, haccount, rfl⟩), hgroup, howner, huser, hwrapped⟩

theorem handed_of_mem (hdb : WellFormed db) {s : ShareEntry} (hs : s ∈ db.shares.rows)
    (hkey : s.key = (body.groupId, body.userId)) (howner : s.ownerId = caller.accountId)
    (hwrapped : s.wrappedGroupKey = body.wrappedGroupKey) : Handed P caller body db := by
  intro now
  obtain ⟨hgroup, huser⟩ := Prod.mk.inj hkey
  obtain ⟨account, haccount⟩ := Option.ne_none_iff_exists'.mp (hdb.share_accounts s hs).1
  exact ⟨_, run_mine, _, List.mem_map_of_mem (mem_sharesForUser.mpr
    ⟨s, hs, huser, account, haccount, rfl⟩), hgroup, howner, huser, hwrapped⟩

/-! ## What a create leaves -/

/-- The one row between the group and the member after a create: the caller's own is given the
new key, and that of another account stays with it. -/
theorem exists_row_of_create (hok : (Shares.runCreate P now caller body db).1 = .ok ()) :
    ∃ s ∈ (Shares.runCreate P now caller body db).2.shares.rows,
      s.key = (body.groupId, body.userId) ∧ s.wrappedGroupKey = body.wrappedGroupKey ∧
        (s.ownerId = caller.accountId ↔ Own caller body db) := by
  have hmem := (Shares.mem_create hok).mpr (Or.inr rfl)
  cases hfind : db.shares.find? (body.groupId, body.userId) with
  | none =>
    rw [hfind] at hmem
    refine ⟨_, hmem, rfl, rfl, iff_of_true rfl ?_⟩
    intro s hs hkey
    exact absurd hkey (KeyedTable.find?_eq_none.mp hfind s hs)
  | some old =>
    rw [hfind] at hmem
    obtain ⟨hold, hkey⟩ := KeyedTable.find?_eq_some.mp hfind
    refine ⟨_, hmem, hkey, rfl, ?_, fun hown => hown old hold hkey⟩
    intro howner s hs hs'
    rwa [db.shares.eq_of_key_eq hs hold (hs'.trans hkey.symm)]

theorem stands_of_create (hok : (Shares.runCreate P now caller body db).1 = .ok ())
    (hown : Own caller body db) :
    Stands caller body.groupId body.userId (Shares.runCreate P now caller body db).2 := by
  obtain ⟨s, hs, hkey, _, howner⟩ := exists_row_of_create hok
  exact ⟨s, hs, hkey, howner.mpr hown⟩

/-! ## Until the caller removes the member -/

/-- Nobody else can remove the share or take it over. -/
theorem stands_serve (hdb : WellFormed db) (hnot : a.removes ≠ some (caller, groupId, userId))
    (h : Stands caller groupId userId db) :
    Stands caller groupId userId (serve P cfg db a) := by
  obtain ⟨s, hs, hkey, howner⟩ := h
  cases hcreate : a.creates with
  | some c =>
    obtain ⟨other, body⟩ := c
    rw [serve_create hcreate]
    by_cases hok : (Shares.runCreate P a.now other body db).1 = .ok ()
    · by_cases hrow : s.key = (body.groupId, body.userId)
      · have hfind : db.shares.find? (body.groupId, body.userId) = some s :=
          KeyedTable.find?_eq_some.mpr ⟨hs, hrow⟩
        have hmem := (Shares.mem_create hok).mpr (Or.inr rfl)
        rw [hfind] at hmem
        exact ⟨_, hmem, hkey, howner⟩
      · exact ⟨s, (Shares.mem_create hok).mpr (Or.inl ⟨hs, hrow⟩), hkey, howner⟩
    · rw [Shares.create_error hok]
      exact ⟨s, hs, hkey, howner⟩
  | none =>
    cases hremove : a.removes with
    | some r =>
      obtain ⟨other, g, u⟩ := r
      rw [serve_remove hremove]
      refine ⟨s, Shares.mem_remove.mpr ⟨hs, ?_⟩, hkey, howner⟩
      rintro ⟨rfl, hother, rfl⟩
      obtain ⟨rfl, rfl⟩ := Prod.mk.inj hkey
      apply hnot
      rw [hremove]
      exact congrArg some (Prod.ext (congrArg Caller.mk (hother.symm.trans howner)) rfl)
    | none =>
      rw [Stands, shares_serve hdb hcreate hremove]
      exact ⟨s, hs, hkey, howner⟩

theorem stands_run {later : List Arrival} (hdb : WellFormed db)
    (hnot : ∀ c ∈ later, c.removes ≠ some (caller, groupId, userId))
    (h : Stands caller groupId userId db) :
    Stands caller groupId userId (History.run (serve P cfg) db later) := by
  induction later generalizing db with
  | nil => exact h
  | cons c later ih =>
    apply ih (wellFormed_serve hdb) (fun b hb => hnot b (List.mem_cons_of_mem c hb))
    exact stands_serve hdb (hnot c List.mem_cons_self) h

theorem own_of_stands (h : Stands caller body.groupId body.userId db) : Own caller body db := by
  obtain ⟨s, hs, hkey, howner⟩ := h
  intro s' hs' hkey'
  rwa [db.shares.eq_of_key_eq hs' hs (hkey'.trans hkey.symm)]

theorem outside_iff (hdb : WellFormed db) (hne : body.userId ≠ caller.accountId)
    (hremove : a.removes = some (caller, body.groupId, body.userId)) :
    Outside P cfg caller.accountId body.groupId body.userId (serve P cfg db a) ↔
      Own caller body db := by
  constructor
  · intro h s hs hkey
    by_contra hforeign
    obtain ⟨hgroup, huser⟩ := Prod.mk.inj hkey
    refine h.unshared s ?_ hgroup huser
    rw [serve_remove hremove]
    exact Shares.mem_remove.mpr ⟨hs, fun hown => hforeign hown.2.1⟩
  · intro hown
    have hunshared : ∀ s ∈ (serve P cfg db a).shares.rows, s.groupId = body.groupId →
        s.userId ≠ body.userId := by
      intro s hs hgroup huser
      rw [serve_remove hremove] at hs
      obtain ⟨hold, hkept⟩ := Shares.mem_remove.mp hs
      exact hkept ⟨hgroup, hown s hold (Prod.ext hgroup huser), huser⟩
    refine ⟨hunshared, ?_⟩
    intro now cursor r hreturns hrow hlabel
    have hvis := Sync.visible_of_returns (wellFormed_serve hdb).distinct hreturns
    rcases Tables.visible_iff.mp hvis with hmine | ⟨g, hg, hshared⟩
    · exact hne (hmine.symm.trans hrow)
    · obtain ⟨s, hs, rfl, huser⟩ := Tables.mem_sharedWith.mp hshared
      exact hunshared s hs (Option.some.inj (hg.symm.trans hlabel)) huser

theorem own_later {later : List Arrival} (hok : (Shares.runCreate P now caller body db).1 = .ok ())
    (hown : Own caller body db) (hnot : ¬ RemovedIn caller body later)
    (hcreated : WellFormed (Shares.runCreate P now caller body db).2) :
    Own caller body
      (History.run (serve P cfg) (Shares.runCreate P now caller body db).2 later) := by
  apply own_of_stands
  apply stands_run hcreated (fun c hc hremove => hnot ⟨c, hc, hremove⟩)
  exact stands_of_create hok hown

/-! ## The owner's operations -/

/-- A create that answers `Ok` is in force exactly if no other account's share stands there, then
or when the caller removes the member for a second time. -/
theorem inForce_iff (P : Platform) (cfg : Config) (arrivals : List Arrival) (a : Arrival)
    (later : List Arrival) (caller : Caller) (body : ShareRequest)
    (hcreate : a.creates = some (caller, body))
    (hok : (Shares.runCreate P a.now caller body (reached P cfg arrivals)).1 = .ok ()) :
    InForce P cfg arrivals a later caller body ↔
      Own caller body (reached P cfg arrivals) ∧
        (RemovedIn caller body later →
          Own caller body (reached P cfg (arrivals ++ a :: later))) := by
  have hwf : WellFormed (reached P cfg (arrivals ++ [a])) := wellFormed_reached _
  have hcreated : reached P cfg (arrivals ++ [a]) =
      (Shares.runCreate P a.now caller body (reached P cfg arrivals)).2 :=
    reached_snoc.trans (serve_create hcreate)
  have hne : body.userId ≠ caller.accountId :=
    fun hself => Shares.create_ok_iff.mp hok (Or.inl hself)
  obtain ⟨s, hs, hkey, hwrapped, howner⟩ := exists_row_of_create hok
  rw [← hcreated] at hs
  constructor
  · intro h
    refine ⟨?_, fun _ => ?_⟩
    · obtain ⟨s', hs', hkey', howner', _⟩ := (listed_iff hwf).mp h.listed
      apply howner.mp
      rwa [KeyedTable.eq_of_key_eq _ hs hs' (hkey.trans hkey'.symm)]
    · have hremoved := h.removed ⟨0, .removeShare caller body.groupId body.userId⟩ rfl
      rw [reached_snoc] at hremoved
      exact (outside_iff (wellFormed_reached _) hne rfl).mp hremoved
  · rintro ⟨hown, hagain⟩
    have hlater : Own caller body (reached P cfg (arrivals ++ a :: later)) := by
      by_cases hremoved : RemovedIn caller body later
      · exact hagain hremoved
      · rw [reached_append_cons]
        rw [hcreated] at hwf ⊢
        exact own_later hok hown hremoved hwf
    refine ⟨(listed_iff hwf).mpr ⟨s, hs, hkey, howner.mpr hown, hwrapped⟩,
      handed_of_mem hwf hs hkey (howner.mpr hown) hwrapped, ?_⟩
    intro b hremove
    rw [reached_snoc]
    exact (outside_iff (wellFormed_reached _) hne hremove).mpr hlater

section Runs

open Reference

def carolFirst : List Arrival := accounts ++ [
  ⟨1, .createShare ⟨"carol"⟩ ⟨"g", "bob", "wrapped by carol"⟩⟩]

def adaShares (wrapped : String) : Arrival := ⟨2, .createShare ⟨"ada"⟩ ⟨"g", "bob", wrapped⟩⟩

theorem create_without_effect :
    ¬ ∀ (P : Platform) (cfg : Config) (arrivals : List Arrival) (a : Arrival)
      (later : List Arrival) (caller : Caller) (body : ShareRequest),
      a.creates = some (caller, body) →
        (Shares.runCreate P a.now caller body (reached P cfg arrivals)).1 = .ok () →
        InForce P cfg arrivals a later caller body := by
  intro h
  have hinforce := h .reference config carolFirst (adaShares "wrapped") [] ⟨"ada"⟩
    ⟨"g", "bob", "wrapped"⟩ rfl (by decide +kernel)
  obtain ⟨shares, hrun, s, hs, _⟩ := hinforce.listed 0
  have hempty : (Program.run (exec .reference 0) (Shares.list ⟨"ada"⟩ "g")
      (reached .reference config (carolFirst ++ [adaShares "wrapped"]))).1 = .ok [] := by
    decide +kernel
  obtain rfl := Except.ok.inj (hrun.symm.trans hempty)
  exact absurd hs List.not_mem_nil

def backAgain : List Arrival := [⟨3, .removeShare ⟨"ada"⟩ "g" "bob"⟩, adaShares "third"]

theorem new_key_in_force :
    InForce .reference config (accounts ++ [adaShares "old"]) (adaShares "new") backAgain ⟨"ada"⟩
      ⟨"g", "bob", "new"⟩ :=
  (inForce_iff .reference config (accounts ++ [adaShares "old"]) (adaShares "new") backAgain
    ⟨"ada"⟩ ⟨"g", "bob", "new"⟩ rfl (by decide +kernel)).mpr
    ⟨by decide +kernel, fun _ => by decide +kernel⟩

end Runs

end RemotierSync.Members
