import RemotierSync.Follower
import RemotierSync.Reference

/-!
# What a drained pull has delivered

A pull that answers `more = false` promises that there is nothing left to fetch. For the rows of
the client's own account the promise is kept in every run. For the rows of groups shared with the
account it is kept as long as no share opens a row which the cursor has already passed and the
client has not received: such a row keeps its number, and no later pull returns it.
-/

namespace RemotierSync.Follower

open SqliteStore Server ChangeLog Client Reader

variable (P : Platform) (cfg : Config) (caller : Caller)

/-- Whenever a pull of the run answers that nothing is left, the client has received every
watched row of that moment. -/
def DrainedPullsComplete (watched : SqliteDb → RecordEntry → Prop) (events : List Event) : Prop :=
  History.Always (step P cfg caller) start
    (fun s ev => ∀ now resp, ev = .pull now → answer P cfg caller now s = .ok resp →
      resp.more = false →
      ∀ r ∈ s.db.records.rows, watched s.db r → Received P (step P cfg caller s ev).toClient r)
    events

/-- The client is caught up with the rows it watches. -/
def CaughtUpOn (watched : SqliteDb → RecordEntry → Bool) (s : Follower) : Prop :=
  CaughtUpWith P (s.db.records.rows.filter (watched s.db)) s.toClient

variable {P} {cfg} {caller} {watched : SqliteDb → RecordEntry → Bool} {events : List Event}
  {Admits : Follower → Event → Prop} {s : Follower}

theorem caughtUpOn_start : CaughtUpOn P watched start := by
  intro r hr
  simp [start] at hr

theorem watched_subset_seen
    (hsub : ∀ db r, watched db r = true → db.visible caller.accountId r = true) (db : SqliteDb) :
    db.records.rows.filter (watched db) ⊆ seen caller db.toTables := by
  intro r hr
  obtain ⟨hmem, hw⟩ := List.mem_filter.mp hr
  exact List.mem_filter.mpr ⟨hmem, hsub db r hw⟩

theorem caughtUpOn_follow
    (hstep : ∀ s ev, Sound s → CaughtUpOn P watched s → Admits s ev →
      CaughtUpOn P watched (step P cfg caller s ev))
    (h : History.Always (step P cfg caller) start Admits events) :
    CaughtUpOn P watched (follow P cfg caller events) := by
  refine History.run_induction (I := fun events => CaughtUpOn P watched
    (History.run (step P cfg caller) start events)) caughtUpOn_start ?_ h
  intro events ev ih hev
  rw [History.run_snoc]
  exact hstep _ ev (sound_follow events) ih hev

theorem caughtUpOn_pull
    (hsub : ∀ db r, watched db r = true → db.visible caller.accountId r = true)
    (hs : Sound s) (hc : CaughtUpOn P watched s) (now : ℤ) :
    CaughtUpOn P watched (step P cfg caller s (.pull now)) := by
  cases ha : answer P cfg caller now s with
  | error err => rwa [step_pull_of_error ha]
  | ok resp =>
    rw [step_pull_of_ok ha]
    exact caughtUp_accept (distinct_seen hs) (watched_subset_seen hsub s.db) hc (pageOf_answer ha)

/-- A client that every step keeps caught up is complete whenever it has drained the log. -/
theorem drainedPullsComplete_of_step (watched : SqliteDb → RecordEntry → Bool)
    (hsub : ∀ db r, watched db r = true → db.visible caller.accountId r = true)
    (hstep : ∀ s ev, Sound s → CaughtUpOn P watched s → Admits s ev →
      CaughtUpOn P watched (step P cfg caller s ev))
    (h : History.Always (step P cfg caller) start Admits events) :
    DrainedPullsComplete P cfg caller (fun db r => watched db r = true) events := by
  rintro before ev after rfl now resp rfl ha hmore r hr hw
  have hc := caughtUpOn_follow hstep (History.always_of_append h)
  rw [step_pull_of_ok ha]
  exact complete_of_drained (watched_subset_seen hsub _) hc (pageOf_answer ha) hmore r
    (List.mem_filter.mpr ⟨hr, hw⟩)

def ownRows (accountId : String) (_ : SqliteDb) (r : RecordEntry) : Bool :=
  r.accountId = accountId

theorem visible_of_ownRows {accountId : String} (db : SqliteDb) (r : RecordEntry)
    (h : ownRows accountId db r = true) : db.visible accountId r = true :=
  Tables.visible_iff.mpr (Or.inl (by simpa [ownRows] using h))

/-- No update of the client's own rows is lost through the cursor, and none is delivered
twice. -/
theorem own_rows_complete (P : Platform) (cfg : Config) (caller : Caller) (events : List Event) :
    DrainedPullsComplete P cfg caller (fun _ r => r.accountId = caller.accountId) events ∧
      ((follow P cfg caller events).received.map Envelope.seq).Pairwise (· < ·) := by
  refine ⟨?_, (sound_follow events).orderly.increasing⟩
  have hcomplete : DrainedPullsComplete P cfg caller
      (fun db r => ownRows caller.accountId db r = true) events := by
    have hany : History.Always (step P cfg caller) start (fun _ _ => True) events :=
      fun _ _ _ _ => trivial
    refine drainedPullsComplete_of_step _ visible_of_ownRows ?_ hany
    intro s ev hs hc _
    cases ev with
    | request a => exact caughtUp_request hs hc (fun r _ _ hp' _ => Or.inl hp')
    | pull now => exact caughtUpOn_pull visible_of_ownRows hs hc now
  simpa only [ownRows, decide_eq_true_eq] using hcomplete

/-! ## Rows of shared groups -/

/-- A create that admits the client to a group opens no row it has passed without receiving. -/
def OpensNothingUnread (P : Platform) (caller : Caller) (s : Follower) (ev : Event) : Prop :=
  ∀ c ∈ ev.creates, c.2.userId = caller.accountId → ¬ Shares.Refused c.1 c.2 s.db →
    ∀ r ∈ s.db.records.rows, r.groupId = some c.2.groupId →
      s.db.visible caller.accountId r = false → r.seq ≤ s.cursor → Received P s.toClient r

instance (s : Follower) (ev : Event) : Decidable (OpensNothingUnread P caller s ev) :=
  Option.decidableForallMem _

theorem visible_of_serve {db : SqliteDb} {a : Arrival} (hdb : WellFormed db) {accountId : String}
    {r : RecordEntry} (h : (serve P cfg db a).visible accountId r = true) :
    db.visible accountId r = true ∨ ∃ owner body, a.creates = some (owner, body) ∧
      ¬ Shares.Refused owner body db ∧ body.userId = accountId ∧
      r.groupId = some body.groupId := by
  rcases Tables.visible_iff.mp h with hown | ⟨g, hg, hshared⟩
  · exact Or.inl (Tables.visible_iff.mpr (Or.inl hown))
  · obtain ⟨s, hs, rfl, rfl⟩ := Tables.mem_sharedWith.mp hshared
    rcases share_of_serve hdb hs with ⟨old, hold, hkey, _⟩ | ⟨owner, body, ha, hok, _, rfl⟩
    · obtain ⟨hgroup, huser⟩ := Prod.mk.inj hkey
      refine Or.inl (Tables.visible_iff.mpr (Or.inr ⟨s.groupId, hg, ?_⟩))
      exact Tables.mem_sharedWith.mpr ⟨old, hold, hgroup, huser⟩
    · exact Or.inr ⟨owner, body, ha, hok, rfl, hg⟩

/-- A client is complete for everything it can see if no share opens a row that its cursor has
passed unread. -/
theorem visible_rows_complete (P : Platform) (cfg : Config) (caller : Caller)
    (events : List Event)
    (h : History.Always (step P cfg caller) start (OpensNothingUnread P caller) events) :
    DrainedPullsComplete P cfg caller (fun db r => db.visible caller.accountId r = true)
      events := by
  refine drainedPullsComplete_of_step (fun db => db.visible caller.accountId) (fun _ _ => id) ?_ h
  intro s ev hs hc hev
  cases ev with
  | pull now => exact caughtUpOn_pull (fun _ _ => id) hs hc now
  | request a =>
    apply caughtUp_request hs hc
    intro r hr _ hvis hle
    by_cases hold : s.db.visible caller.accountId r = true
    · exact Or.inl hold
    · obtain ⟨owner, body, ha, hok, huser, hgroup⟩ :=
        (visible_of_serve hs.wellFormed hvis).resolve_left hold
      exact Or.inr (hev (owner, body) ha huser hok r hr hgroup (Bool.eq_false_iff.mpr hold) hle)

section Runs

open Reference

/-- Ada stores a record of her group, Bob's cursor passes it, and then Ada shares the group. -/
def lateShare : List Event := [
  .request (registration "ada"),
  .request (registration "bob"),
  .request ⟨1, .push ⟨"ada"⟩ [sharedHost 5]⟩,
  .request ⟨2, .push ⟨"bob"⟩ [host "own" .personal none 5]⟩,
  .pull 3,
  .request ⟨4, .createShare ⟨"ada"⟩ ⟨"g", "bob", "wrapped"⟩⟩]

def lateRow : RecordEntry := Platform.reference.recordEntry "ada" (sharedHost 5) 1

/-- Bob sees the record of the group, but his pull brings nothing. -/
theorem run_lateShare :
    answer .reference config ⟨"bob"⟩ 5 (follow .reference config ⟨"bob"⟩ lateShare) =
      .ok ⟨[], 2, false⟩ ∧
    lateRow ∈ (follow .reference config ⟨"bob"⟩ lateShare).db.records.rows ∧
    (follow .reference config ⟨"bob"⟩ lateShare).db.visible "bob" lateRow = true ∧
    ¬ Received .reference (follow .reference config ⟨"bob"⟩ (lateShare ++ [.pull 5])).toClient
      lateRow := by
  decide +kernel

theorem late_share_stays_unread :
    ¬ DrainedPullsComplete .reference config ⟨"bob"⟩ (fun db r => db.visible "bob" r = true)
      (lateShare ++ [.pull 5]) := by
  intro h
  obtain ⟨hpull, hstored, hvisible, hunread⟩ := run_lateShare
  exact hunread (h lateShare (.pull 5) [] rfl 5 _ rfl hpull rfl lateRow hstored hvisible)

/-- Bob reads the record of a group that was shared first, and is admitted to it a second
time. -/
def earlyShare : List Event := [
  .request (registration "ada"),
  .request (registration "bob"),
  .request ⟨1, .createShare ⟨"ada"⟩ ⟨"g", "bob", "wrapped"⟩⟩,
  .request ⟨2, .push ⟨"ada"⟩ [sharedHost 5]⟩,
  .pull 3,
  .request ⟨4, .removeShare ⟨"ada"⟩ "g" "bob"⟩,
  .request ⟨5, .createShare ⟨"ada"⟩ ⟨"g", "bob", "wrapped"⟩⟩,
  .pull 6]

theorem early_share_is_read :
    DrainedPullsComplete .reference config ⟨"bob"⟩ (fun db r => db.visible "bob" r = true)
      earlyShare :=
  visible_rows_complete .reference config ⟨"bob"⟩ earlyShare (by decide +kernel)

end Runs

end RemotierSync.Follower
