import RemotierSync.Cursor
import RemotierSync.Fidelity
import RemotierSync.Members
import RemotierSync.Stale
import Mathlib.Data.List.Infix

/-!
# Records that leave a group

The log keeps the current version of a row and a pull decides by that version who sees it. When a
push takes a row out of a group, nothing tells the members: the row is gone from their pulls. A
member is told only by what happens since: a version of the record has to be pushed where the
member sees it, or its group shared with the member, ahead of the member's cursor, and it has to
stay in sight until a pull returns it. A version of the row that left is then the newer one; of a
copy under another account that has to be asked for.
-/

namespace RemotierSync.Leaving

open SqliteStore Server ChangeLog Client Reader Follower

variable (P : Platform) (cfg : Config) (caller : Caller)

/-- An accepted push replaces a row of another account, which the caller sees through a share of
the group, by a version that the caller does not see though it keeps the share. -/
structure Leaves (before : List Event) (a : Arrival) (groupId : String) (r r' : RecordEntry) :
    Prop where
  foreign : r.accountId ≠ caller.accountId
  stood : r ∈ (follow P cfg caller before).db.records.rows
  label : r.groupId = some groupId
  shared : groupId ∈ (follow P cfg caller before).db.sharedWith caller.accountId
  accepted : ∃ pusher body resp, a.pushes = some (pusher, body) ∧
    Sync.answered P cfg pusher a.now body (follow P cfg caller before).db resp ∧
    ⟨r'.id, r'.kind, r'.seq⟩ ∈ resp.accepted
  key_eq : r'.key = r.key
  stands : r' ∈ (serve P cfg (follow P cfg caller before).db a).records.rows
  kept : groupId ∈ (serve P cfg (follow P cfg caller before).db a).sharedWith caller.accountId
  hidden : (serve P cfg (follow P cfg caller before).db a).visible caller.accountId r' = false

/-- The client has received a version that the row had. -/
def Had (before : List Event) (r : RecordEntry) (v : Envelope) : Prop :=
  v ∈ (follow P cfg caller before).received ∧
    ∃ first rest, before = first ++ rest ∧
      ∃ old ∈ (follow P cfg caller first).db.records.rows, old.key = r.key ∧ Sync.Decodes P old v

/-- Since then the client has received a version of the record that is at least as new. -/
def Told (before since : List Event) (r : RecordEntry) (c : Clock) : Prop :=
  ∃ e ∈ (follow P cfg caller (before ++ since)).received.drop
      (follow P cfg caller before).received.length,
    OneRow.SameRecord r e ∧ c ≤ e.clock

/-! ## What brings a version into sight, and what hides it -/

/-- A push stores the version where the client's account sees it, or a share of its group is
created for the account while the client's cursor has not passed it. -/
def Shown (x : RecordEntry) (s : Follower) : Event → Prop
  | .request a =>
    (x ∉ s.db.records.rows ∧ x ∈ (serve P cfg s.db a).records.rows ∧
      s.db.visible caller.accountId x = true) ∨
    (x ∈ s.db.records.rows ∧ s.cursor < x.seq ∧ ∃ c ∈ a.creates, ¬ Shares.Refused c.1 c.2 s.db ∧
      c.2.userId = caller.accountId ∧ x.groupId = some c.2.groupId)
  | .pull _ => False

/-- A push replaces the version, or the account through whose share the client's account sees it
removes the share. -/
def Hidden (x : RecordEntry) (s : Follower) : Event → Prop
  | .request a =>
    x ∉ (serve P cfg s.db a).records.rows ∨
    (x.accountId ≠ caller.accountId ∧ ∃ c ∈ a.removes, Members.Stands c.1 c.2.1 c.2.2 s.db ∧
      c.2.2 = caller.accountId ∧ x.groupId = some c.2.1)
  | .pull _ => False

/-- A row that the client's account sees and its cursor has not passed. -/
structure Unread (x : RecordEntry) (s : Follower) : Prop where
  stands : x ∈ s.db.records.rows
  visible : s.db.visible caller.accountId x = true
  ahead : s.cursor < x.seq

/-- The version was shown by one of the events and not hidden since. -/
def CameBack (x : RecordEntry) (s : Follower) (events : List Event) : Prop :=
  History.Since (step P cfg caller) s (Shown P cfg caller x) (Hidden P cfg caller x) events

/-- The version was in sight from the beginning and has not been hidden. -/
def Stayed (x : RecordEntry) (s : Follower) (events : List Event) : Prop :=
  Unread caller x s ∧
    History.Always (step P cfg caller) s (fun s ev => ¬ Hidden P cfg caller x s ev) events

/-- A version of the row came back into sight, or a copy of the record under another account that is
as new is in sight. -/
def BackInSight (r : RecordEntry) (c : Clock) (x : RecordEntry) (s : Follower)
    (events : List Event) : Prop :=
  x.kind = r.kind ∧ x.id = r.id ∧
    ((x.accountId = r.accountId ∧ CameBack P cfg caller x s events) ∨
      (x.accountId ≠ r.accountId ∧ c ≤ x.clock ∧
        (CameBack P cfg caller x s events ∨ Stayed P cfg caller x s events)))

/-- Between the cursor and the row the client's account sees fewer rows than a page holds. -/
def OnPage (s : Follower) (x : RecordEntry) : Prop :=
  (seen caller s.db.toTables).countP (fun y => s.cursor < y.seq ∧ y.seq < x.seq) <
    cfg.maxPage.toNat

variable {P} {cfg} {caller} {before since : List Event} {a : Arrival} {groupId : String}
  {r r' x : RecordEntry} {c : Clock} {s : Follower} {now : ℤ} {resp : PullResponse} {v : Envelope}
  {ev : Event}

theorem follow_append (since : List Event) : follow P cfg caller (before ++ since) =
    History.run (step P cfg caller) (follow P cfg caller before) since :=
  History.run_append _ _ _ _

theorem follow_snoc : follow P cfg caller (before ++ [ev]) =
    step P cfg caller (follow P cfg caller before) ev :=
  History.run_snoc _ _ _ _

/-! ## The events of a run -/

theorem db_step_pull : (step P cfg caller s (.pull now)).db = s.db := by
  cases ha : answer P cfg caller now s with
  | error err => rw [step_pull_of_error ha]
  | ok resp => rw [step_pull_of_ok ha]

theorem received_step (ev : Event) : s.received <+: (step P cfg caller s ev).received := by
  cases ev with
  | request a => exact List.prefix_refl _
  | pull now =>
    cases ha : answer P cfg caller now s with
    | error err => simp only [step_pull_of_error ha, List.prefix_refl]
    | ok resp =>
      rw [step_pull_of_ok ha]
      exact List.prefix_append _ _

theorem received_follow (since : List Event) :
    (follow P cfg caller before).received <+: (follow P cfg caller (before ++ since)).received := by
  rw [follow_append]
  apply History.run_invariant
    (I := fun s : Follower => (follow P cfg caller before).received <+: s.received)
  · exact List.prefix_refl _
  · intro s ev hs
    exact hs.trans (received_step ev)

theorem cursor_le_step (ev : Event) : s.cursor ≤ (step P cfg caller s ev).cursor := by
  cases ev with
  | request a => exact le_rfl
  | pull now =>
    cases ha : answer P cfg caller now s with
    | error err => rw [step_pull_of_error ha]
    | ok resp =>
      rw [step_pull_of_ok ha]
      exact cursor_le_of_page (pageOf_answer ha)

theorem cursor_le_follow (since : List Event) :
    (follow P cfg caller before).cursor ≤ (follow P cfg caller (before ++ since)).cursor := by
  rw [follow_append]
  apply History.run_invariant
    (I := fun s : Follower => (follow P cfg caller before).cursor ≤ s.cursor)
  · exact le_rfl
  · intro s ev hs
    exact hs.trans (cursor_le_step ev)

theorem exists_reached (events : List Event) :
    ∃ arrivals, (follow P cfg caller events).db = reached P cfg arrivals := by
  induction events using List.reverseRecOn with
  | nil => exact ⟨[], rfl⟩
  | append_singleton events ev ih =>
    obtain ⟨arrivals, hdb⟩ := ih
    rw [follow_snoc]
    cases ev with
    | request a =>
      refine ⟨arrivals ++ [a], ?_⟩
      rw [reached_snoc, ← hdb]
      rfl
    | pull now => exact ⟨arrivals, db_step_pull.trans hdb⟩

theorem answer_isOk (events : List Event) (now : ℤ) :
    ∃ resp, answer P cfg caller now (follow P cfg caller events) = .ok resp := by
  obtain ⟨arrivals, hdb⟩ : ∃ arrivals, (follow P cfg caller events).db = reached P cfg arrivals :=
    exists_reached events
  have hpull := Fidelity.pull_reached_isOk P cfg arrivals now (follow P cfg caller events).cursor
    caller
  rwa [← hdb] at hpull

/-! ## The version that the client had -/

theorem settled_follow {accountId : String} {e : Envelope} (since : List Event)
    (h : Sync.Settled accountId e (follow P cfg caller before).db) :
    Sync.Settled accountId e (follow P cfg caller (before ++ since)).db := by
  rw [follow_append]
  apply History.run_invariant (I := fun s : Follower => Sync.Settled accountId e s.db) h
  intro s ev hs
  cases ev with
  | request a => exact Stale.settled_serve hs
  | pull now => rwa [db_step_pull]

/-- Whatever stands under the key of the row is at least as new as what the client had. -/
theorem Had.le (h : Had P cfg caller before r v)
    (hx : x ∈ (follow P cfg caller (before ++ since)).db.records.rows) (hkey : x.key = r.key) :
    v.clock ≤ x.clock := by
  obtain ⟨_, first, rest, rfl, old, hold, hold', hdec⟩ := h
  obtain ⟨hid, hkind, _, hclock, _⟩ := envelopeFromRow_columns hdec
  have hrecord : recordKey r.accountId v = r.key := by
    rw [← hold']
    refine Prod.ext (congrArg Prod.fst hold').symm (Prod.ext ?_ hid)
    exact (RecordKind.eq_asStr_of_parse hkind).symm
  have hfirst : Sync.Settled r.accountId v (follow P cfg caller first).db := by
    intro hsup
    rw [hrecord] at hsup
    have hlt := hsup old (KeyedTable.find?_eq_some.mpr ⟨hold, hold'⟩)
    rw [hclock] at hlt
    exact absurd hlt (lt_irrefl _)
  have hlater := settled_follow (rest ++ since) hfirst
  rw [← List.append_assoc] at hlater
  obtain ⟨stored, hfind, hle⟩ := Stale.exists_row_of_settled hlater
  obtain ⟨hmem, hstored⟩ := KeyedTable.find?_eq_some.mp hfind
  rwa [KeyedTable.eq_of_key_eq _ hx hmem (hkey.trans (hrecord.symm.trans hstored.symm))]

/-! ## A version in sight -/

theorem visible_serve_push {p : Caller × List Envelope} {db : SqliteDb} (hdb : WellFormed db)
    (hpush : a.pushes = some p) {accountId : String} :
    (serve P cfg db a).visible accountId x = db.visible accountId x := by
  unfold Tables.visible Tables.sharedWith
  rw [serve_push hpush, (Sync.afterPush_frame hdb).2.1]

theorem unread_of_shown (hs : Sound s) (h : Shown P cfg caller x s (.request a)) :
    Unread caller x (step P cfg caller s (.request a)) := by
  rcases h with ⟨hnew, hx, hvis⟩ | ⟨hx, hahead, ⟨owner, body⟩, hcreate, hok, huser, hgroup⟩
  · obtain ⟨pusher, body, hpush, _⟩ := exists_push_of_new_row hx hnew
    refine ⟨hx, (visible_serve_push hs.wellFormed hpush).trans hvis, ?_⟩
    exact hs.cursor_le.trans_lt ((grows_serve.2 x hx).resolve_left hnew)
  · have hcreated : serve P cfg s.db a = (Shares.runCreate P a.now owner body s.db).2 :=
      serve_create hcreate
    obtain ⟨row, hrow, hkey, _⟩ := Members.exists_row_of_create (Shares.create_ok_iff.mpr hok)
    obtain ⟨hrowGroup, hrowUser⟩ := Prod.mk.inj hkey
    rw [← hcreated] at hrow
    refine ⟨?_, ?_, hahead⟩
    · change x ∈ (serve P cfg s.db a).records.rows
      rwa [hcreated, Shares.create_frame.1]
    · refine Tables.visible_iff.mpr (Or.inr ⟨body.groupId, hgroup, ?_⟩)
      exact Tables.mem_sharedWith.mpr ⟨row, hrow, hrowGroup, hrowUser.trans huser⟩

theorem visible_of_not_hidden (hs : Sound s) (hvis : s.db.visible caller.accountId x = true)
    (h : ¬ Hidden P cfg caller x s (.request a)) :
    x ∈ (serve P cfg s.db a).records.rows ∧
      (serve P cfg s.db a).visible caller.accountId x = true := by
  obtain ⟨hstands, hkept⟩ := not_or.mp h
  refine ⟨not_not.mp hstands, ?_⟩
  rw [Tables.visible_iff] at hvis ⊢
  by_cases hown : x.accountId = caller.accountId
  · exact Or.inl hown
  · obtain ⟨g, hg, hshared⟩ := hvis.resolve_left hown
    obtain ⟨row, hrow, hrowGroup, hrowUser⟩ := Tables.mem_sharedWith.mp hshared
    have hsharer : Members.Stands ⟨row.ownerId⟩ g caller.accountId s.db :=
      ⟨row, hrow, Prod.ext hrowGroup hrowUser, rfl⟩
    have hnot : a.removes ≠ some (⟨row.ownerId⟩, g, caller.accountId) :=
      fun hremove => hkept ⟨hown, _, hremove, hsharer, rfl, hg⟩
    have hstill : Members.Stands ⟨row.ownerId⟩ g caller.accountId (serve P cfg s.db a) :=
      Members.stands_serve hs.wellFormed hnot hsharer
    obtain ⟨row', hrow', hkey', _⟩ := hstill
    obtain ⟨hgroup', huser'⟩ := Prod.mk.inj hkey'
    exact Or.inr ⟨g, hg, Tables.mem_sharedWith.mpr ⟨row', hrow', hgroup', huser'⟩⟩

theorem not_hidden_of_visible (hx : x ∈ (serve P cfg s.db a).records.rows)
    (hvis : (serve P cfg s.db a).visible caller.accountId x = true) :
    ¬ Hidden P cfg caller x s (.request a) := by
  rintro (hgone | ⟨hforeign, ⟨owner, g, u⟩, hremove, ⟨row, hrow, hkey, howner⟩, huser, hgroup⟩)
  · exact hgone hx
  · obtain ⟨g', hg', hshared⟩ := (Tables.visible_iff.mp hvis).resolve_left hforeign
    obtain ⟨row', hrow', hrowGroup, hrowUser⟩ := Tables.mem_sharedWith.mp hshared
    rw [serve_remove hremove] at hrow'
    obtain ⟨hold, hkept⟩ := Shares.mem_remove.mp hrow'
    have hkey' : row'.key = (g, u) :=
      Prod.ext (hrowGroup.trans (Option.some.inj (hg'.symm.trans hgroup)))
        (hrowUser.trans huser.symm)
    obtain rfl := KeyedTable.eq_of_key_eq _ hold hrow (hkey'.trans hkey.symm)
    exact hkept ⟨congrArg Prod.fst hkey', howner, congrArg Prod.snd hkey'⟩

/-- What is unread after an event was shown by it, or unread before and not hidden. -/
theorem shown_or_unread (hs : Sound s) (h : Unread caller x (step P cfg caller s ev)) :
    Shown P cfg caller x s ev ∨ (Unread caller x s ∧ ¬ Hidden P cfg caller x s ev) := by
  have hahead : s.cursor < x.seq := (cursor_le_step ev).trans_lt h.ahead
  cases ev with
  | pull now =>
    have hstands := h.stands
    have hvis := h.visible
    rw [db_step_pull] at hstands hvis
    exact Or.inr ⟨⟨hstands, hvis, hahead⟩, not_false⟩
  | request a =>
    have hstands : x ∈ (serve P cfg s.db a).records.rows := h.stands
    have hvis : (serve P cfg s.db a).visible caller.accountId x = true := h.visible
    by_cases hold : x ∈ s.db.records.rows
    · by_cases hbefore : s.db.visible caller.accountId x = true
      · exact Or.inr ⟨⟨hold, hbefore, hahead⟩, not_hidden_of_visible hstands hvis⟩
      · obtain ⟨owner, body, hcreate, hok, huser, hgroup⟩ :=
          (visible_of_serve hs.wellFormed hvis).resolve_left hbefore
        exact Or.inl (Or.inr ⟨hold, hahead, (owner, body), hcreate, hok, huser, hgroup⟩)
    · obtain ⟨pusher, body, hpush, _⟩ := exists_push_of_new_row hstands hold
      rw [visible_serve_push hs.wellFormed hpush] at hvis
      exact Or.inl (Or.inl ⟨hold, hstands, hvis⟩)

theorem kept_of_unread (h : Unread caller x (follow P cfg caller (before ++ since))) :
    CameBack P cfg caller x (follow P cfg caller before) since ∨
      Stayed P cfg caller x (follow P cfg caller before) since := by
  apply History.kept_of (I := fun since => Unread caller x (follow P cfg caller (before ++ since)))
    _ _ h
  · rw [List.append_nil]
    exact id
  · intro since ev hev
    rw [← List.append_assoc, follow_snoc] at hev
    rw [← follow_append]
    exact shown_or_unread (sound_follow _) hev

variable (P) (caller) in
/-- A row that the client's account sees, and that the client, once its cursor has passed it, has
received since its cursor was at the bound. -/
structure InReach (bound : ℤ) (x : RecordEntry) (s : Follower) : Prop where
  beyond : bound < x.seq
  stands : x ∈ s.db.records.rows
  visible : s.db.visible caller.accountId x = true
  caughtUp : CaughtUpWith P [x] s.toClient

theorem InReach.subset {bound : ℤ} (h : InReach P caller bound x s) :
    [x] ⊆ seen caller s.db.toTables := by
  intro y hy
  obtain rfl := List.mem_singleton.mp hy
  exact List.mem_filter.mpr ⟨h.stands, h.visible⟩

theorem inReach_of_unread {bound : ℤ} (hbound : bound ≤ s.cursor) (h : Unread caller x s) :
    InReach P caller bound x s where
  beyond := hbound.trans_lt h.ahead
  stands := h.stands
  visible := h.visible
  caughtUp := by
    intro y hy hle
    obtain rfl := List.mem_singleton.mp hy
    exact absurd h.ahead (not_lt.mpr hle)

/-- What came into sight, or was unread, and has not been hidden, has been received or will be. -/
theorem inReach_of_kept
    (h : CameBack P cfg caller x (follow P cfg caller before) since ∨
      Stayed P cfg caller x (follow P cfg caller before) since) :
    InReach P caller (follow P cfg caller before).cursor x
      (follow P cfg caller (before ++ since)) := by
  refine History.Kept.induction (I := fun since =>
    InReach P caller (follow P cfg caller before).cursor x (follow P cfg caller (before ++ since)))
    ?_ ?_ ?_ h
  · intro hunread
    rw [List.append_nil]
    exact inReach_of_unread le_rfl hunread
  · intro since ev hev
    rw [← follow_append] at hev
    rw [← List.append_assoc, follow_snoc]
    cases ev with
    | request a =>
      exact inReach_of_unread (cursor_le_follow since) (unread_of_shown (sound_follow _) hev)
    | pull now => exact hev.elim
  · intro since ev hreach hev
    have hs : Sound (follow P cfg caller (before ++ since)) := sound_follow _
    rw [← follow_append] at hev
    rw [← List.append_assoc, follow_snoc]
    cases ev with
    | request a =>
      obtain ⟨hstands, hvis⟩ := visible_of_not_hidden hs hreach.visible hev
      exact ⟨hreach.beyond, hstands, hvis, hreach.caughtUp⟩
    | pull now =>
      obtain ⟨resp, hresp⟩ := answer_isOk (before ++ since) now
      rw [step_pull_of_ok hresp]
      exact ⟨hreach.beyond, hreach.stands, hreach.visible,
        caughtUp_accept (distinct_seen hs) hreach.subset hreach.caughtUp (pageOf_answer hresp)⟩

/-! ## What the client is told -/

theorem told_of_received (hcursor : (follow P cfg caller before).cursor < x.seq)
    (hreceived : Received P (follow P cfg caller (before ++ since)).toClient x)
    (hkind : x.kind = r.kind) (hid : x.id = r.id) (hle : c ≤ x.clock) :
    Told P cfg caller before since r c := by
  obtain ⟨e, he, hdec⟩ := hreceived
  obtain ⟨hid', hkind', _, hclock, hseq⟩ := envelopeFromRow_columns hdec
  obtain ⟨rest, hrest⟩ : (follow P cfg caller before).received <+:
      (follow P cfg caller (before ++ since)).received := received_follow since
  refine ⟨e, ?_, ⟨?_, hid.symm.trans hid'.symm⟩, hclock ▸ hle⟩
  · rw [← hrest] at he ⊢
    rw [List.drop_left]
    refine (List.mem_append.mp he).resolve_left (fun hold => ?_)
    have hpast := (sound_follow before).orderly.received_le e hold
    omega
  · rw [← hkind]
    exact RecordKind.eq_asStr_of_parse hkind'

theorem Told.append (h : Told P cfg caller before since r c) (more : List Event) :
    Told P cfg caller before (since ++ more) r c := by
  obtain ⟨e, he, hsame⟩ := h
  have hprefix : (follow P cfg caller (before ++ since)).received <+:
      (follow P cfg caller (before ++ since ++ more)).received := received_follow more
  rw [List.append_assoc] at hprefix
  exact ⟨e, (List.IsPrefix.drop hprefix _).subset he, hsame⟩

theorem not_told_nil : ¬ Told P cfg caller before [] r c := by
  rintro ⟨e, he, _⟩
  rw [List.append_nil, List.drop_length] at he
  exact absurd he List.not_mem_nil

theorem told_request {b : Arrival} :
    Told P cfg caller before (since ++ [.request b]) r c ↔ Told P cfg caller before since r c := by
  rw [Told, ← List.append_assoc, follow_snoc, Told]
  rfl

theorem unread_of_brought (hs : Sound s) (h : answer P cfg caller now s = .ok resp) {e : Envelope}
    (he : e ∈ resp.envelopes) (hsame : OneRow.SameRecord r e) (hle : c ≤ e.clock) :
    ∃ x, Unread caller x s ∧ OnPage cfg caller s x ∧ x.kind = r.kind ∧ x.id = r.id ∧
      c ≤ x.clock := by
  obtain ⟨x, hx, hdec⟩ := Sync.exists_row_of_decodes (pageOf_answer h).decodes he
  obtain ⟨hseen, hcursor, hpage⟩ := (mem_page_iff (distinct_seen hs)).mp hx
  obtain ⟨hmem, hvis⟩ := List.mem_filter.mp hseen
  obtain ⟨hid, hkind, _, hclock, _⟩ := envelopeFromRow_columns hdec
  refine ⟨x, ⟨hmem, hvis, hcursor⟩, hpage, ?_, hid.symm.trans hsame.2.symm, hclock ▸ hle⟩
  rw [RecordKind.eq_asStr_of_parse hkind, hsame.1]

/-- The pull at which the client was told. -/
theorem exists_pull_of_told (h : Told P cfg caller before since r c) :
    ∃ since₁ now since₂ x, since = since₁ ++ .pull now :: since₂ ∧
      Unread caller x (follow P cfg caller (before ++ since₁)) ∧
      OnPage cfg caller (follow P cfg caller (before ++ since₁)) x ∧ x.kind = r.kind ∧
      x.id = r.id ∧ c ≤ x.clock := by
  induction since using List.reverseRecOn with
  | nil => exact absurd h not_told_nil
  | append_singleton since ev ih =>
    by_cases hold : Told P cfg caller before since r c
    · obtain ⟨since₁, now, since₂, x, rfl, hx⟩ := ih hold
      exact ⟨since₁, now, since₂ ++ [ev], x, by simp, hx⟩
    · cases ev with
      | request b => exact absurd (told_request.mp h) hold
      | pull now =>
        obtain ⟨resp, hresp⟩ : ∃ resp,
            answer P cfg caller now (follow P cfg caller (before ++ since)) = .ok resp :=
          answer_isOk _ now
        obtain ⟨e, he, hsame, hle⟩ := h
        have hlength : (follow P cfg caller before).received.length ≤
            (follow P cfg caller (before ++ since)).received.length :=
          (received_follow since).length_le
        rw [← List.append_assoc, follow_snoc, step_pull_of_ok hresp] at he
        change e ∈ ((follow P cfg caller (before ++ since)).received ++ resp.envelopes).drop _ at he
        rw [List.drop_append_of_le_length hlength, List.mem_append] at he
        have hnew := he.resolve_left (fun hdrop => hold ⟨e, hdrop, hsame, hle⟩)
        obtain ⟨x, hx⟩ := unread_of_brought (sound_follow _) hresp hnew hsame hle
        exact ⟨since, now, [], x, rfl, hx⟩

theorem received_of_onPage (hs : Sound s) {bound : ℤ} (h : InReach P caller bound x s)
    (hpage : OnPage cfg caller s x) (hanswer : answer P cfg caller now s = .ok resp) :
    Received P (s.toClient.accept resp) x := by
  by_cases hahead : s.cursor < x.seq
  · apply received_of_page (pageOf_answer hanswer)
    exact (mem_page_iff (distinct_seen hs)).mpr
      ⟨List.mem_filter.mpr ⟨h.stands, h.visible⟩, hahead, hpage⟩
  · exact received_accept (h.caughtUp x (List.mem_singleton.mpr rfl) (not_lt.mp hahead))

/-! ## The row that left -/

theorem not_unread_of_leaves (h : Leaves P cfg caller before a groupId r r')
    (hkey : x.key = r.key) : ¬ Unread caller x (follow P cfg caller (before ++ [.request a])) := by
  intro hunread
  rw [follow_snoc] at hunread
  have hsame : x = r' :=
    KeyedTable.eq_of_key_eq _ hunread.stands h.stands (hkey.trans h.key_eq.symm)
  have hvis : (serve P cfg (follow P cfg caller before).db a).visible caller.accountId x = true :=
    hunread.visible
  rw [hsame, h.hidden] at hvis
  cases hvis

theorem backInSight_of_unread (h : Leaves P cfg caller before a groupId r r')
    (hunread : Unread caller x (follow P cfg caller (before ++ .request a :: since)))
    (hkind : x.kind = r.kind) (hid : x.id = r.id) (hle : c ≤ x.clock) :
    BackInSight P cfg caller r c x (follow P cfg caller (before ++ [.request a])) since := by
  have hkept : CameBack P cfg caller x (follow P cfg caller (before ++ [.request a])) since ∨
      Stayed P cfg caller x (follow P cfg caller (before ++ [.request a])) since := by
    apply kept_of_unread
    rwa [List.append_assoc]
  refine ⟨hkind, hid, ?_⟩
  by_cases haccount : x.accountId = r.accountId
  · have hnot := not_unread_of_leaves h (Prod.ext haccount (Prod.ext hkind hid))
    exact Or.inl ⟨haccount, hkept.resolve_right (fun hstayed => hnot hstayed.1)⟩
  · exact Or.inr ⟨haccount, hle, hkept⟩

theorem inReach_of_backInSight (hhad : Had P cfg caller before r v)
    (h : BackInSight P cfg caller r v.clock x (follow P cfg caller (before ++ [.request a]))
      since) :
    InReach P caller (follow P cfg caller (before ++ [.request a])).cursor x
        (follow P cfg caller (before ++ .request a :: since)) ∧ v.clock ≤ x.clock := by
  obtain ⟨hkind, hid, hsight⟩ := h
  have hreach
      (hkept : CameBack P cfg caller x (follow P cfg caller (before ++ [.request a])) since ∨
        Stayed P cfg caller x (follow P cfg caller (before ++ [.request a])) since) :
      InReach P caller (follow P cfg caller (before ++ [.request a])).cursor x
        (follow P cfg caller (before ++ .request a :: since)) := by
    have hlater := inReach_of_kept hkept
    rwa [List.append_assoc] at hlater
  rcases hsight with ⟨haccount, hback⟩ | ⟨_, hle, hkept⟩
  · have hr := hreach (Or.inl hback)
    exact ⟨hr, hhad.le hr.stands (Prod.ext haccount (Prod.ext hkind hid))⟩
  · exact ⟨hreach hkept, hle⟩

/-- By a pull that leaves nothing the client has been told of a record that left its sight exactly
if a version of it came back into sight, ahead of the cursor, and stayed until that pull or until an
earlier one had it on its page. -/
theorem told_iff (P : Platform) (cfg : Config) (caller : Caller) (before : List Event)
    (a : Arrival) (mid : List Event) (now : ℤ) (resp : PullResponse) (groupId : String)
    (r r' : RecordEntry) (v : Envelope) (h : Leaves P cfg caller before a groupId r r')
    (hhad : Had P cfg caller before r v)
    (hanswer : answer P cfg caller now (follow P cfg caller (before ++ .request a :: mid)) =
      .ok resp)
    (hmore : resp.more = false) :
    Told P cfg caller before (.request a :: mid ++ [.pull now]) r v.clock ↔
      ∃ x, BackInSight P cfg caller r v.clock x (follow P cfg caller (before ++ [.request a])) mid ∨
        ∃ mid₁ earlier mid₂, mid = mid₁ ++ .pull earlier :: mid₂ ∧
          BackInSight P cfg caller r v.clock x (follow P cfg caller (before ++ [.request a])) mid₁ ∧
          OnPage cfg caller (follow P cfg caller (before ++ .request a :: mid₁)) x := by
  have hcursor : (follow P cfg caller before).cursor ≤
      (follow P cfg caller (before ++ [.request a])).cursor := cursor_le_follow _
  constructor
  · intro htold
    obtain ⟨since₁, earlier, since₂, x, hsplit, hunread, hpage, hkind, hid, hle⟩ :=
      exists_pull_of_told htold
    refine ⟨x, ?_⟩
    cases since₁ with
    | nil => cases hsplit
    | cons first mid₁ =>
      obtain ⟨rfl, hmid⟩ := List.cons.inj hsplit
      rcases History.snoc_eq_append_cons.mp hmid with ⟨rfl, _⟩ | ⟨mid₂, _, rfl⟩
      · exact Or.inl (backInSight_of_unread h hunread hkind hid hle)
      · have hback := backInSight_of_unread h hunread hkind hid hle
        exact Or.inr ⟨mid₁, earlier, mid₂, rfl, hback, hpage⟩
  · rintro ⟨x, hback | ⟨mid₁, earlier, mid₂, rfl, hback, hpage⟩⟩
    · obtain ⟨hreach, hle⟩ := inReach_of_backInSight hhad hback
      refine told_of_received (hcursor.trans_lt hreach.beyond) ?_ hback.1 hback.2.1 hle
      rw [← List.append_assoc, follow_snoc, step_pull_of_ok hanswer]
      exact complete_of_drained hreach.subset hreach.caughtUp (pageOf_answer hanswer) hmore x
        (List.mem_singleton.mpr rfl)
    · obtain ⟨hreach, hle⟩ := inReach_of_backInSight hhad hback
      obtain ⟨resp', hearlier⟩ := answer_isOk (before ++ .request a :: mid₁) earlier
      have htold : Told P cfg caller before (.request a :: mid₁ ++ [.pull earlier]) r v.clock := by
        refine told_of_received (hcursor.trans_lt hreach.beyond) ?_ hback.1 hback.2.1 hle
        rw [← List.append_assoc, follow_snoc, step_pull_of_ok hearlier]
        exact received_of_onPage (sound_follow _) hreach hpage hearlier
      have hlater := htold.append (mid₂ ++ [.pull now])
      simpa using hlater

section Runs

open Reference

/-- Ada shares her group with Bob and stores a record in it, which Bob pulls. -/
def inGroup : List Event := [
  .request (registration "ada"),
  .request (registration "bob"),
  .request ⟨1, .createShare ⟨"ada"⟩ ⟨"g", "bob", "wrapped"⟩⟩,
  .request ⟨2, .push ⟨"ada"⟩ [sharedHost 5]⟩,
  .pull 3]

def takenOut : Arrival := ⟨4, .push ⟨"ada"⟩ [host "h" .personal none 6]⟩

def sharedRow : RecordEntry := Platform.reference.recordEntry "ada" (sharedHost 5) 1

def privateRow : RecordEntry :=
  Platform.reference.recordEntry "ada" (host "h" .personal none 6) 2

theorem run_takenOut :
    (sharedRow ∈ (follow .reference config ⟨"bob"⟩ inGroup).db.records.rows ∧
      "g" ∈ (follow .reference config ⟨"bob"⟩ inGroup).db.sharedWith "bob") ∧
    Sync.answered .reference config ⟨"ada"⟩ 4 [host "h" .personal none 6]
      (follow .reference config ⟨"bob"⟩ inGroup).db ⟨[⟨"h", "host", 2⟩], [], 2⟩ ∧
    privateRow ∈ (serve .reference config (follow .reference config ⟨"bob"⟩ inGroup).db
      takenOut).records.rows ∧
    "g" ∈ (serve .reference config (follow .reference config ⟨"bob"⟩ inGroup).db
      takenOut).sharedWith "bob" ∧
    (serve .reference config (follow .reference config ⟨"bob"⟩ inGroup).db
      takenOut).visible "bob" privateRow = false := by
  decide +kernel

theorem leaves_takenOut :
    Leaves .reference config ⟨"bob"⟩ inGroup takenOut "g" sharedRow privateRow where
  foreign := by decide
  stood := run_takenOut.1.1
  label := rfl
  shared := run_takenOut.1.2
  accepted := ⟨⟨"ada"⟩, _, ⟨[⟨"h", "host", 2⟩], [], 2⟩, rfl, run_takenOut.2.1, by
    exact List.mem_singleton.mpr rfl⟩
  key_eq := rfl
  stands := run_takenOut.2.2.1
  kept := run_takenOut.2.2.2.1
  hidden := run_takenOut.2.2.2.2

theorem pull_takenOut :
    { sharedHost 5 with seq := 1 } ∈ (follow .reference config ⟨"bob"⟩ inGroup).received ∧
    answer .reference config ⟨"bob"⟩ 5
      (follow .reference config ⟨"bob"⟩ (inGroup ++ [.request takenOut])) = .ok ⟨[], 1, false⟩ ∧
    (follow .reference config ⟨"bob"⟩ (inGroup ++ [.request takenOut, .pull 5])).received.drop
      (follow .reference config ⟨"bob"⟩ inGroup).received.length = [] := by
  decide +kernel

theorem had_sharedHost :
    Had .reference config ⟨"bob"⟩ inGroup sharedRow { sharedHost 5 with seq := 1 } :=
  ⟨pull_takenOut.1, inGroup, [], rfl, sharedRow, run_takenOut.1.1, rfl, envelopeFromRow_recordEntry⟩

theorem leaving_untold :
    ¬ ∀ (P : Platform) (cfg : Config) (caller : Caller) (before : List Event) (a : Arrival)
      (mid : List Event) (now : ℤ) (resp : PullResponse) (groupId : String) (r r' : RecordEntry)
      (v : Envelope), Leaves P cfg caller before a groupId r r' → Had P cfg caller before r v →
        answer P cfg caller now (follow P cfg caller (before ++ .request a :: mid)) = .ok resp →
        resp.more = false →
        Told P cfg caller before (.request a :: mid ++ [.pull now]) r v.clock := by
  intro h
  obtain ⟨_, hanswer, hnothing⟩ := pull_takenOut
  obtain ⟨e, he, _⟩ := h .reference config ⟨"bob"⟩ inGroup takenOut [] 5 ⟨[], 1, false⟩ "g"
    sharedRow privateRow _ leaves_takenOut had_sharedHost hanswer rfl
  rw [List.cons_append, List.nil_append, hnothing] at he
  exact absurd he List.not_mem_nil

/-- Ada puts it back before Bob pulls. -/
def putBack : Event := .request ⟨5, .push ⟨"ada"⟩ [sharedHost 7]⟩

def rowAgain : RecordEntry := Platform.reference.recordEntry "ada" (sharedHost 7) 3

theorem pull_putBack :
    answer .reference config ⟨"bob"⟩ 6
      (follow .reference config ⟨"bob"⟩ (inGroup ++ [.request takenOut, putBack])) =
        .ok ⟨[{ sharedHost 7 with seq := 3 }], 3, false⟩ ∧
    rowAgain ∉ (follow .reference config ⟨"bob"⟩
      (inGroup ++ [.request takenOut])).db.records.rows ∧
    rowAgain ∈ (follow .reference config ⟨"bob"⟩
      (inGroup ++ [.request takenOut, putBack])).db.records.rows ∧
    (follow .reference config ⟨"bob"⟩
      (inGroup ++ [.request takenOut])).db.visible "bob" rowAgain = true := by
  decide +kernel

theorem return_told :
    Told .reference config ⟨"bob"⟩ inGroup (.request takenOut :: [putBack] ++ [.pull 6]) sharedRow
      (sharedHost 5).clock :=
  (told_iff .reference config ⟨"bob"⟩ inGroup takenOut [putBack] 6
      ⟨[{ sharedHost 7 with seq := 3 }], 3, false⟩ "g" sharedRow privateRow
      { sharedHost 5 with seq := 1 } leaves_takenOut had_sharedHost pull_putBack.1 rfl).mpr
    ⟨rowAgain, Or.inl ⟨rfl, rfl, Or.inl ⟨rfl, [], putBack, [], rfl,
      Or.inl pull_putBack.2, History.always_nil⟩⟩⟩

end Runs

end RemotierSync.Leaving
