import RemotierSync.Reference

/-!
# Who reads an account's records

A member sees a record of another account through a share row of the group in the record's
routing hint. Every share row goes back to a create by the owner it names (`sharedSince_of_row`),
but that owner need not be the account whose records the share opens: any account may share any
group id. Records stay confined in runs in which no such foreign share and no record it opens
come to stand together.
-/

namespace RemotierSync.Reading

open SqliteStore Server

variable (P : Platform) (cfg : Config)

/-- The account created a share of the group for the member, and has not removed it since. -/
def SharedSince (ownerId groupId userId : String) (arrivals : List Arrival) : Prop :=
  History.Standing (serve P cfg) .migrated
    (fun db a => ∃ c ∈ a.creates, c.1.accountId = ownerId ∧ c.2.groupId = groupId ∧
      c.2.userId = userId ∧ (Shares.runCreate P a.now c.1 c.2 db).1 = .ok ())
    (fun a => a.removes = some (⟨ownerId⟩, groupId, userId)) arrivals

/-- What the member's pulls return of the account's records in the group, they return through a
share that the account itself created and has not removed. -/
def ReadConfined (ownerId groupId userId : String) (arrivals : List Arrival) : Prop :=
  ∀ now cursor r, Sync.Returns P cfg ⟨userId⟩ now cursor (reached P cfg arrivals) r →
    r.accountId = ownerId → r.groupId = some groupId →
      SharedSince P cfg ownerId groupId userId arrivals

/-- No create by somebody else opens a record of the account that is stored. -/
def OpensNothingStored (ownerId groupId userId : String) (db : SqliteDb) (a : Arrival) : Prop :=
  ∀ c ∈ a.creates, c.2.groupId = groupId → c.2.userId = userId → c.1.accountId ≠ ownerId →
    ¬ Shares.Refused c.1 c.2 db → db.shares.find? (groupId, userId) = none →
    ∀ r ∈ db.records.rows, r.accountId = ownerId → r.groupId ≠ some groupId

/-- No push stores a record of the account that a share by somebody else opens. -/
def StoresNothingOpen (ownerId groupId userId : String) (db : SqliteDb) (a : Arrival) : Prop :=
  ∀ p ∈ a.pushes, (∃ s ∈ db.shares.rows, s.key = (groupId, userId) ∧ s.ownerId ≠ ownerId) →
    ∀ e ∈ p.2, Sync.takes P cfg p.1 a.now p.2 db (recordKey ownerId e) = some e →
      e.groupId ≠ some groupId

/-- No request makes a share by somebody else and a record it opens stand together. -/
def ExposesNothing (ownerId groupId userId : String) (db : SqliteDb) (a : Arrival) : Prop :=
  OpensNothingStored ownerId groupId userId db a ∧
    StoresNothingOpen P cfg ownerId groupId userId db a

instance (ownerId groupId userId : String) (db : SqliteDb) (a : Arrival) :
    Decidable (OpensNothingStored ownerId groupId userId db a) :=
  Option.decidableForallMem _

instance (ownerId groupId userId : String) (db : SqliteDb) (a : Arrival) :
    Decidable (StoresNothingOpen P cfg ownerId groupId userId db a) :=
  Option.decidableForallMem _

instance (ownerId groupId userId : String) (db : SqliteDb) (a : Arrival) :
    Decidable (ExposesNothing P cfg ownerId groupId userId db a) :=
  inferInstanceAs (Decidable (_ ∧ _))

variable {P} {cfg} {arrivals : List Arrival} {ownerId groupId userId : String}

/-- Every share row stands for a create by its owner that the owner has not undone. -/
theorem sharedSince_of_row {s : ShareEntry} (hs : s ∈ (reached P cfg arrivals).shares.rows) :
    SharedSince P cfg s.ownerId s.groupId s.userId arrivals := by
  induction arrivals using List.reverseRecOn generalizing s with
  | nil => simp [reached] at hs
  | append_singleton arrivals a ih =>
    rw [reached_snoc] at hs
    rw [SharedSince, History.standing_snoc]
    rcases share_of_serve (wellFormed_reached arrivals) hs with
      ⟨old, hold, hkey, howner⟩ | ⟨caller, body, hc, hok, _, rfl⟩
    · obtain ⟨hgroup, huser⟩ := Prod.mk.inj hkey
      have hprior := ih hold
      rw [hgroup, huser, howner] at hprior
      refine Or.inr ⟨hprior, ?_⟩
      intro hremove
      rw [serve_remove hremove] at hs
      exact (Shares.mem_remove.mp hs).2 ⟨rfl, rfl, rfl⟩
    · exact Or.inl ⟨(caller, body), hc, rfl, rfl, rfl, Shares.create_ok_iff.mpr hok⟩

/-- While a record of the account is stored in the group, the member's share is the account's. -/
def OwnShareOnly (ownerId groupId userId : String) (db : SqliteDb) : Prop :=
  ∀ r ∈ db.records.rows, r.accountId = ownerId → r.groupId = some groupId →
    ∀ s ∈ db.shares.rows, s.key = (groupId, userId) → s.ownerId = ownerId

theorem ownShareOnly_serve {db : SqliteDb} {a : Arrival} (hdb : WellFormed db)
    (h : OwnShareOnly ownerId groupId userId db)
    (ha : ExposesNothing P cfg ownerId groupId userId db a) :
    OwnShareOnly ownerId groupId userId (serve P cfg db a) := by
  intro r hr hacc hgroup s hs hkey
  by_cases hold : r ∈ db.records.rows
  · rcases share_of_serve hdb hs with ⟨old, hs', hkey', howner⟩ | ⟨caller, body, hc, hok, hnew, rfl⟩
    · rw [← howner]
      exact h r hold hacc hgroup old hs' (hkey'.trans hkey)
    · obtain ⟨hg, hu⟩ := Prod.mk.inj hkey
      by_contra hforeign
      rw [← hg, ← hu] at ha
      exact ha.1 (caller, body) hc rfl rfl hforeign hok hnew r hold hacc (by rw [hgroup, ← hg])
  · obtain ⟨caller, body, hpush, hr⟩ := exists_push_of_new_row hr hold
    rw [serve_push hpush, (Sync.afterPush_frame hdb).2.1] at hs
    obtain ⟨e, _, htakes, hrow, _⟩ := Sync.new_row_of_push hdb hr hold
    obtain ⟨he, _, hke, _⟩ := Sync.filed_of_takes htakes
    have hk : r.key = recordKey ownerId e := by
      rw [← hke, ← hacc]
      rfl
    rw [hk] at htakes
    have hlabel : e.groupId = some groupId := by
      rw [← hgroup, hrow]
      rfl
    by_contra hforeign
    exact ha.2 (caller, body) hpush ⟨s, hs, hkey, hforeign⟩ e he htakes hlabel

theorem ownShareOnly_reached
    (h : History.Always (serve P cfg) .migrated (ExposesNothing P cfg ownerId groupId userId)
      arrivals) :
    OwnShareOnly ownerId groupId userId (reached P cfg arrivals) := by
  refine History.run_induction
    (I := fun arrivals => OwnShareOnly ownerId groupId userId (reached P cfg arrivals)) ?_ ?_ h
  · intro r hr
    simp [reached] at hr
  · intro arrivals a ih ha
    rw [reached_snoc]
    exact ownShareOnly_serve (wellFormed_reached arrivals) ih ha

/-- After a run that exposes nothing, the account's records in the group reach the member only
through a share of its own. -/
theorem read_confined (P : Platform) (cfg : Config) (ownerId groupId userId : String)
    (hne : ownerId ≠ userId) (arrivals : List Arrival)
    (h : History.Always (serve P cfg) .migrated (ExposesNothing P cfg ownerId groupId userId)
      arrivals) :
    ReadConfined P cfg ownerId groupId userId arrivals := by
  intro now cursor r hreturns hacc hgroup
  have hvis := Sync.visible_of_returns (wellFormed_reached arrivals).distinct hreturns
  rcases Tables.visible_iff.mp hvis with hown | ⟨g, hg, hshared⟩
  · exact absurd (hacc.symm.trans hown) hne
  · obtain rfl : groupId = g := Option.some.inj (hgroup.symm.trans hg)
    obtain ⟨s, hs, rfl, rfl⟩ := Tables.mem_sharedWith.mp hshared
    have howner := ownShareOnly_reached h r hreturns.1 hacc hgroup s hs rfl
    have hsince := sharedSince_of_row hs
    rwa [howner] at hsince

section Runs

open Reference

def foreignShare : List Arrival := accounts ++ [
  ⟨1, .push ⟨"ada"⟩ [sharedHost 5]⟩,
  ⟨2, .createShare ⟨"carol"⟩ ⟨"g", "bob", "wrapped"⟩⟩]

theorem foreign_share_opens_record :
    ¬ ReadConfined .reference config "ada" "g" "bob" foreignShare := by
  intro h
  have hsince := h 3 0 (Platform.reference.recordEntry "ada" (sharedHost 5) 1)
    ⟨by decide +kernel, ⟨[{ sharedHost 5 with seq := 1 }], 1, false⟩, by decide +kernel,
      { sharedHost 5 with seq := 1 }, by decide +kernel, rfl⟩ rfl rfl
  obtain ⟨a, ha, _, c, hc, howner, _⟩ := hsince.exists_on
  have hnone : ∀ a ∈ foreignShare, ∀ c ∈ a.creates, c.1.accountId ≠ "ada" := by decide +kernel
  exact hnone a ha c hc howner

/-- Ada shares her group with Bob and edits her record afterwards. Carol shares a group of her
own with him. -/
def ownShare : List Arrival := accounts ++ [
  ⟨1, .push ⟨"ada"⟩ [sharedHost 5]⟩,
  ⟨2, .createShare ⟨"ada"⟩ ⟨"g", "bob", "wrapped"⟩⟩,
  ⟨3, .push ⟨"ada"⟩ [sharedHost 6]⟩,
  ⟨4, .createShare ⟨"carol"⟩ ⟨"g2", "bob", "wrapped"⟩⟩]

theorem own_share_confined : ReadConfined .reference config "ada" "g" "bob" ownShare :=
  read_confined .reference config "ada" "g" "bob" (by decide) ownShare (by decide +kernel)

end Runs

end RemotierSync.Reading
