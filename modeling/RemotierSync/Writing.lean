import RemotierSync.Reference

/-!
# Who writes an account's records

Permission to write is asked for the group in an envelope's key reference, the row it hits is
chosen by kind and id, and what a member sees is chosen by the routing hint. The first two part
when a member of a group pushes under the id of one of the owner's other records
(`write_confined_iff` says exactly when), and the first and the last when an outsider labels a
record of its own with the group (`view_from_inside`).
-/

namespace RemotierSync.Writing

open SqliteStore Server

/-! ## The owner's rows -/

/-- Every row of the owner that differs afterwards is in a group the owner shares with the
member: the old row, or the new one where there was none. -/
def WriteConfined (P : Platform) (ownerId memberId : String) (before after : SqliteDb) : Prop :=
  ∀ k, k.1 = ownerId → after.records.find? k ≠ before.records.find? k →
    ∃ s ∈ before.shares.rows, s.ownerId = ownerId ∧ s.userId = memberId ∧
      match before.records.find? k with
      | some old => old.InGroup P s.groupId
      | none => ∃ new, after.records.find? k = some new ∧ new.InGroup P s.groupId

/-- The envelope hits a row of the group, or adds one to it. -/
def HitsGroup (P : Platform) (stored : Option RecordEntry) (e : Envelope) (groupId : String) :
    Prop :=
  match stored with
  | some old => old.InGroup P groupId
  | none => e.groupId = some groupId ∨ e.keyRef = .group groupId

instance (P : Platform) (stored : Option RecordEntry) (e : Envelope) (groupId : String) :
    Decidable (HitsGroup P stored e groupId) :=
  match stored with
  | some old => inferInstanceAs (Decidable (old.InGroup P groupId))
  | none => inferInstanceAs (Decidable (_ ∨ _))

/-- Each envelope of the batch that takes a row of the owner hits a row in a group the owner
shares with the caller, or adds one to such a group. -/
def HitsSharedGroups (P : Platform) (cfg : Config) (ownerId : String) (caller : Caller) (now : ℤ)
    (body : List Envelope) (db : SqliteDb) : Prop :=
  ∀ e ∈ body, Sync.takes P cfg caller now body db (recordKey ownerId e) = some e →
    ∃ s ∈ db.shares.rows, s.ownerId = ownerId ∧ s.userId = caller.accountId ∧
      HitsGroup P (db.records.find? (recordKey ownerId e)) e s.groupId

instance (P : Platform) (cfg : Config) (ownerId : String) (caller : Caller) (now : ℤ)
    (body : List Envelope) (db : SqliteDb) :
    Decidable (HitsSharedGroups P cfg ownerId caller now body db) :=
  inferInstanceAs (Decidable (∀ e ∈ body, _ → ∃ s ∈ db.shares.rows, _ ∧ _ ∧ _))

/-- A push is confined exactly if the envelopes that take rows of the owner hit shared
groups. -/
theorem write_confined_iff (P : Platform) (cfg : Config) (arrivals : List Arrival)
    (ownerId : String) (caller : Caller) (hne : ownerId ≠ caller.accountId) (now : ℤ)
    (body : List Envelope) :
    WriteConfined P ownerId caller.accountId (reached P cfg arrivals)
        (Sync.afterPush P cfg caller now body (reached P cfg arrivals)) ↔
      HitsSharedGroups P cfg ownerId caller now body (reached P cfg arrivals) := by
  have hdb : WellFormed (reached P cfg arrivals) := wellFormed_reached arrivals
  generalize reached P cfg arrivals = db at hdb ⊢
  constructor
  · intro h e he htakes
    obtain ⟨s, hs, howner, huser, hold⟩ :=
      h (recordKey ownerId e) rfl ((Sync.push_changes_iff hdb hne).mpr ⟨e, htakes⟩)
    refine ⟨s, hs, howner, huser, ?_⟩
    unfold HitsGroup
    cases hfind : db.records.find? (recordKey ownerId e) with
    | some old => rwa [hfind] at hold
    | none =>
      rw [hfind] at hold
      obtain ⟨new, hnew, hgroup⟩ := hold
      obtain ⟨seq, hrow⟩ := Sync.row_of_takes hdb hne htakes
      obtain rfl : P.recordEntry ownerId e seq = new := Option.some.inj (hrow.symm.trans hnew)
      exact recordEntry_inGroup.mp hgroup
  · rintro h k rfl hchanged
    unfold HitsSharedGroups HitsGroup at h
    obtain ⟨e, htakes⟩ := (Sync.push_changes_iff hdb hne).mp hchanged
    obtain ⟨he, _, hkey, _⟩ := Sync.filed_of_takes htakes
    obtain ⟨seq, hrow⟩ := Sync.row_of_takes hdb hne htakes
    obtain ⟨s, hs, howner, huser, hold⟩ := h e he (by rw [hkey]; exact htakes)
    rw [hkey] at hold
    refine ⟨s, hs, howner, huser, ?_⟩
    cases hfind : db.records.find? k with
    | some old => rwa [hfind] at hold
    | none =>
      rw [hfind] at hold
      exact ⟨_, hrow, recordEntry_inGroup.mpr hold⟩

section Runs

open Reference

def sharingAda : List Arrival := accounts ++ [
  ⟨1, .push ⟨"ada"⟩ [host "private" .personal none 5, sharedHost 5]⟩,
  ⟨2, .createShare ⟨"ada"⟩ ⟨"g", "bob", "wrapped"⟩⟩]

theorem run_private :
    (reached .reference config sharingAda).records.find? ("ada", "host", "private") =
      some (Platform.reference.recordEntry "ada" (host "private" .personal none 5) 1) ∧
    (Sync.afterPush .reference config ⟨"bob"⟩ 3 [host "private" (.group "g") (some "g") 6]
      (reached .reference config sharingAda)).records.find? ("ada", "host", "private") ≠
        (reached .reference config sharingAda).records.find? ("ada", "host", "private") ∧
    ∀ s ∈ (reached .reference config sharingAda).shares.rows,
      ¬ (Platform.reference.recordEntry "ada" (host "private" .personal none 5) 1).InGroup
        .reference s.groupId := by
  decide +kernel

theorem member_overwrites_private_record :
    ¬ WriteConfined .reference "ada" "bob" (reached .reference config sharingAda)
      (Sync.afterPush .reference config ⟨"bob"⟩ 3 [host "private" (.group "g") (some "g") 6]
        (reached .reference config sharingAda)) := by
  intro h
  obtain ⟨hold, hchanged, hnone⟩ := run_private
  obtain ⟨s, hs, _, _, hgroup⟩ := h ("ada", "host", "private") rfl hchanged
  rw [hold] at hgroup
  exact hnone s hs hgroup

theorem member_edit_confined :
    WriteConfined .reference "ada" "bob" (reached .reference config sharingAda)
      (Sync.afterPush .reference config ⟨"bob"⟩ 3 [sharedHost 6]
        (reached .reference config sharingAda)) :=
  (write_confined_iff .reference config sharingAda "ada" ⟨"bob"⟩ (by decide) 3 [sharedHost 6]).mpr
    (by decide +kernel)

end Runs

/-! ## The member's view -/

variable (P : Platform) (cfg : Config)

/-- The owner of a group, a certain member, and everybody who holds a share at the moment. -/
def Insider (ownerId memberId groupId : String) (db : SqliteDb) (accountId : String) : Prop :=
  accountId = ownerId ∨ accountId = memberId ∨
    ∃ s ∈ db.shares.rows, s.groupId = groupId ∧ s.userId = accountId

instance (ownerId memberId groupId : String) (db : SqliteDb) (accountId : String) :
    Decidable (Insider ownerId memberId groupId db accountId) :=
  inferInstanceAs (Decidable (_ ∨ _ ∨ _))

/-- Some push by an insider carried the version that the row holds and reported its number
accepted. -/
def AcceptedFromInsider (ownerId memberId groupId : String) (r : RecordEntry)
    (arrivals : List Arrival) : Prop :=
  History.Occurred (serve P cfg) .migrated
    (fun db a => ∃ p ∈ a.pushes, Insider ownerId memberId groupId db p.1.accountId ∧
      (∃ e ∈ p.2, r = P.recordEntry r.accountId e r.seq) ∧
      ∃ resp, Sync.answered P cfg p.1 a.now p.2 db resp ∧
        ⟨r.id, r.kind, r.seq⟩ ∈ resp.accepted) arrivals

/-- Whatever a pull of the member returns under the group's label came from an insider. -/
def ViewFromInside (ownerId memberId groupId : String) (arrivals : List Arrival) : Prop :=
  ∀ now cursor r, Sync.Returns P cfg ⟨memberId⟩ now cursor (reached P cfg arrivals) r →
    r.groupId = some groupId → AcceptedFromInsider P cfg ownerId memberId groupId r arrivals

/-- No envelope of an outsider that is labelled with the group takes a row. -/
def OutsidersKeepOut (ownerId memberId groupId : String) (db : SqliteDb) (a : Arrival) : Prop :=
  ∀ p ∈ a.pushes, ¬ Insider ownerId memberId groupId db p.1.accountId →
    ∀ w ∈ Sync.filed P cfg p.1 a.now db.toTables p.2, w.2.groupId = some groupId →
      Sync.takes P cfg p.1 a.now p.2 db (recordKey w.1 w.2) ≠ some w.2

instance (ownerId memberId groupId : String) (db : SqliteDb) (a : Arrival) :
    Decidable (OutsidersKeepOut P cfg ownerId memberId groupId db a) :=
  Option.decidableForallMem _

variable {P} {cfg} {arrivals : List Arrival} {ownerId memberId groupId : String}

/-- Rows under the group's label come from insiders as long as outsiders keep out. -/
theorem labelled_rows_from_inside
    (h : History.Always (serve P cfg) .migrated (OutsidersKeepOut P cfg ownerId memberId groupId)
      arrivals) :
    ∀ r ∈ (reached P cfg arrivals).records.rows, r.groupId = some groupId →
      AcceptedFromInsider P cfg ownerId memberId groupId r arrivals := by
  refine History.run_induction (I := fun arrivals =>
    ∀ r ∈ (reached P cfg arrivals).records.rows, r.groupId = some groupId →
      AcceptedFromInsider P cfg ownerId memberId groupId r arrivals) ?_ ?_ h
  · intro r hr
    simp [reached] at hr
  · intro arrivals a ih ha r hr hlabel
    rw [reached_snoc] at hr
    rw [AcceptedFromInsider, History.occurred_snoc]
    by_cases hold : r ∈ (reached P cfg arrivals).records.rows
    · exact Or.inl (ih r hold hlabel)
    · refine Or.inr ?_
      obtain ⟨caller, body, hpush, hr⟩ := exists_push_of_new_row hr hold
      obtain ⟨e, resp, htakes, hrow, hresp, hacc⟩ :=
        Sync.new_row_of_push (wellFormed_reached arrivals) hr hold
      obtain ⟨he, hroute, hkey, _⟩ := Sync.filed_of_takes htakes
      refine ⟨(caller, body), hpush, ?_, ⟨e, he, hrow⟩, resp, hresp, hacc⟩
      by_contra hout
      have hlabel' : e.groupId = some groupId := by
        rw [← hlabel, hrow]
        rfl
      refine ha (caller, body) hpush hout (r.accountId, e) (Sync.mem_filed.mpr ⟨he, hroute⟩)
        hlabel' ?_
      exact (congrArg _ hkey).trans htakes

/-- After a run in which outsiders keep out, the member sees nothing under the group's label
but what insiders pushed. -/
theorem view_from_inside (P : Platform) (cfg : Config) (ownerId memberId groupId : String)
    (arrivals : List Arrival)
    (h : History.Always (serve P cfg) .migrated (OutsidersKeepOut P cfg ownerId memberId groupId)
      arrivals) :
    ViewFromInside P cfg ownerId memberId groupId arrivals := by
  intro now cursor r hreturns hlabel
  exact labelled_rows_from_inside h r hreturns.1 hlabel

section Runs

open Reference

/-- Carol labels a personal record of hers with the group that Ada shares with Bob. -/
def labelledByCarol : List Arrival := accounts ++ [
  ⟨1, .createShare ⟨"ada"⟩ ⟨"g", "bob", "wrapped"⟩⟩,
  ⟨2, .push ⟨"carol"⟩ [host "planted" .personal (some "g") 5]⟩]

def plantedRow : RecordEntry :=
  Platform.reference.recordEntry "carol" (host "planted" .personal (some "g") 5) 1

theorem run_labelledByCarol :
    plantedRow ∈ (reached .reference config labelledByCarol).records.rows ∧
    (Program.run (exec .reference 3) (Sync.pull config ⟨"bob"⟩ 0)
      (reached .reference config labelledByCarol)).1 =
        .ok ⟨[{ host "planted" .personal (some "g") 5 with seq := 1 }], 1, false⟩ ∧
    History.Always (serve .reference config) .migrated
      (fun db a => ∀ p ∈ a.pushes, ¬ Insider "ada" "bob" "g" db p.1.accountId) labelledByCarol := by
  decide +kernel

theorem outsider_enters_view :
    ¬ ViewFromInside .reference config "ada" "bob" "g" labelledByCarol := by
  intro h
  obtain ⟨hstored, hpull, houtside⟩ := run_labelledByCarol
  obtain ⟨before, a, after, hrun, p, hp, hinside, _⟩ := h 3 0 plantedRow
    ⟨hstored, _, hpull, _, List.mem_singleton.mpr rfl, rfl⟩ rfl
  exact houtside before a after hrun p hp hinside

def insideGroup : List Arrival := accounts ++ [
  ⟨1, .createShare ⟨"ada"⟩ ⟨"g", "bob", "wrapped"⟩⟩,
  ⟨2, .push ⟨"ada"⟩ [sharedHost 5]⟩,
  ⟨3, .push ⟨"bob"⟩ [sharedHost 6]⟩,
  ⟨4, .push ⟨"carol"⟩ [host "own" (.group "g2") (some "g2") 5]⟩]

theorem inside_group_view : ViewFromInside .reference config "ada" "bob" "g" insideGroup :=
  view_from_inside .reference config "ada" "bob" "g" insideGroup (by decide +kernel)

end Runs

end RemotierSync.Writing
