import RemotierSync.Pages
import RemotierSync.Reference

/-!
# Who gets what is written for a group

A push files an envelope by the group in its key reference, and a pull shows a row by the group in
its routing header. What is keyed to a group is stored under the group's owner, who gets it; a
member gets it exactly if the header names a group that is shared with the member.
-/

namespace RemotierSync.Delivery

open SqliteStore Server Pages

variable (P : Platform) (cfg : Config) (ownerId groupId : String)

/-- After the run a push by the owner or a member of the group, all of whose shares the owner has
created, reports the envelope keyed to it as accepted under the number. -/
structure GroupWrite (before : List Arrival) (a : Arrival) (e : Envelope) (seq : ℤ)
    (caller : Caller) (body : List Envelope) : Prop where
  sharedByOwner : ∀ s ∈ (reached P cfg before).shares.rows,
    s.groupId = groupId → s.ownerId = ownerId
  push : a.pushes = some (caller, body)
  inside : caller.accountId = ownerId ∨
    groupId ∈ (reached P cfg before).sharedWith caller.accountId
  keyed : e.keyRef = .group groupId
  stores : Fidelity.Stores P cfg (reached P cfg before) caller a.now body e seq
  reported : ∃ resp, Sync.answered P cfg caller a.now body (reached P cfg before) resp ∧
    ⟨e.id, e.kind.asStr, seq⟩ ∈ resp.accepted

/-- The envelope has not been superseded and the shares have not changed. -/
structure Stands (before : List Arrival) (a : Arrival) (after : List Arrival) (seq : ℤ) :
    Prop where
  current : ∃ r ∈ (reached P cfg (before ++ a :: after)).records.rows, r.seq = seq
  shares : ∀ s, s ∈ (reached P cfg (before ++ a :: after)).shares.rows ↔
    s ∈ (reached P cfg before).shares.rows

/-- The owner and every member of the group get the envelope, from any cursor before it. -/
def ReachesGroup (db : SqliteDb) (e : Envelope) : Prop :=
  ∀ reader : Caller, reader.accountId = ownerId ∨ groupId ∈ db.sharedWith reader.accountId →
    ∀ now cursor, cursor < e.seq → Delivers P cfg reader now db cursor e

/-- In the run whatever is written for the group reaches it, as long as it stands. -/
def GroupWritesReach (arrivals : List Arrival) : Prop :=
  ∀ before a after, arrivals = before ++ a :: after → ∀ e seq caller body,
    GroupWrite P cfg ownerId groupId before a e seq caller body →
    Stands P cfg before a after seq →
      ReachesGroup P cfg ownerId groupId (reached P cfg arrivals) { e with seq := seq }

/-- The header names, for every member, a group that is shared with the member. -/
def LabelledForMembers (db : SqliteDb) (e : Envelope) : Prop :=
  ∀ userId, groupId ∈ db.sharedWith userId → userId ≠ ownerId →
    ∃ g, e.groupId = some g ∧ g ∈ db.sharedWith userId

def GroupWritesLabelled (arrivals : List Arrival) : Prop :=
  ∀ before a after, arrivals = before ++ a :: after → ∀ e seq caller body,
    GroupWrite P cfg ownerId groupId before a e seq caller body →
    Stands P cfg before a after seq →
      LabelledForMembers ownerId groupId (reached P cfg before) e

variable {P} {cfg} {ownerId groupId : String} {before after : List Arrival} {a : Arrival}
  {e : Envelope} {seq : ℤ} {caller : Caller} {body : List Envelope}

theorem filed_under_owner (h : GroupWrite P cfg ownerId groupId before a e seq caller body)
    {accountId : String}
    (hroute : Sync.route P cfg caller a.now (reached P cfg before).toTables e = .ok accountId) :
    accountId = ownerId := by
  obtain ⟨_, hid⟩ := Sync.route_group hroute h.keyed
  cases ho : (reached P cfg before).shareOwner P groupId with
  | some owner =>
    obtain ⟨s, hs, hgroup, howner⟩ := Tables.shareOwner_eq_some ho
    rw [ho, Option.getD_some] at hid
    rw [← hid, ← howner]
    exact h.sharedByOwner s hs hgroup
  | none =>
    rw [ho, Option.getD_none] at hid
    rcases h.inside with howner | hmember
    · rw [← hid, howner]
    · obtain ⟨s, hs, hgroup, _⟩ := Tables.mem_sharedWith.mp hmember
      exact absurd hgroup (Tables.shareOwner_eq_none.mp ho s hs)

theorem row_of_groupWrite (h : GroupWrite P cfg ownerId groupId before a e seq caller body)
    {r : RecordEntry} (hr : r ∈ (reached P cfg (before ++ a :: after)).records.rows)
    (hseq : r.seq = seq) : r = P.recordEntry ownerId e seq := by
  obtain ⟨first, accountId, rest, hfiled, hput⟩ := h.stores
  obtain ⟨resp, hresp, _⟩ := h.reported
  obtain rfl := filed_under_owner h (Sync.routed_of_filed hfiled).2
  have hwf : WellFormed (putEnvelope P accountId e (puts P (reached P cfg before) first)).2 :=
    wellFormed_putEnvelope (wellFormed_puts (wellFormed_reached before) first)
  have hrow : P.recordEntry accountId e seq ∈
      (putEnvelope P accountId e (puts P (reached P cfg before) first)).2.records.rows :=
    (KeyedTable.find?_eq_some.mp (find?_of_accepted hput)).1
  have hlater : Grows (putEnvelope P accountId e (puts P (reached P cfg before) first)).2
      (reached P cfg (before ++ a :: after)) := by
    have hserve : serve P cfg (reached P cfg before) a =
        puts P (putEnvelope P accountId e (puts P (reached P cfg before) first)).2 rest := by
      rw [serve_push h.push, (Sync.push_answered hresp).1, hfiled, puts_append_cons]
    rw [reached_append_cons, reached_snoc, hserve]
    exact (grows_puts P _ rest).trans (grows_serves _ after)
  have hle := hwf.seq_le _ hrow
  rcases hlater.2 r hr with hold | hnew
  · exact hwf.distinct.eq_of_pos_eq hold hrow hseq
  · rw [hseq] at hnew
    exact absurd hnew (not_lt.mpr hle)

/-- Whom the row of the envelope is delivered to. -/
theorem delivers_groupWrite (h : GroupWrite P cfg ownerId groupId before a e seq caller body)
    (hs : Stands P cfg before a after seq) {reader : Caller} {now cursor : ℤ}
    (hcursor : cursor < seq) :
    Delivers P cfg reader now (reached P cfg (before ++ a :: after)) cursor { e with seq := seq } ↔
      ownerId = reader.accountId ∨
        ∃ g, e.groupId = some g ∧ g ∈ (reached P cfg before).sharedWith reader.accountId := by
  obtain ⟨r, hr, hseq⟩ := hs.current
  obtain rfl := row_of_groupWrite h hr hseq
  have hvisible : (reached P cfg (before ++ a :: after)).visible reader.accountId
      (P.recordEntry ownerId e seq) = true ↔ ownerId = reader.accountId ∨
        ∃ g, e.groupId = some g ∧ g ∈ (reached P cfg before).sharedWith reader.accountId := by
    simp only [Tables.visible_iff, Tables.mem_sharedWith, hs.shares]
    rfl
  rw [delivers_iff (wellFormed_reached _) (fun _ => Fidelity.envelope_of_row), ← hvisible]
  constructor
  · rintro ⟨r, hr, hvis, _, hdec⟩
    obtain rfl := row_of_groupWrite h hr (envelopeFromRow_seq hdec).symm
    exact hvis
  · intro hvis
    exact ⟨_, hr, hvis, hcursor, envelopeFromRow_recordEntry⟩

theorem reachesGroup_iff (h : GroupWrite P cfg ownerId groupId before a e seq caller body)
    (hs : Stands P cfg before a after seq) :
    ReachesGroup P cfg ownerId groupId (reached P cfg (before ++ a :: after))
        { e with seq := seq } ↔
      LabelledForMembers ownerId groupId (reached P cfg before) e := by
  have hmember (userId : String) :
      groupId ∈ (reached P cfg (before ++ a :: after)).sharedWith userId ↔
        groupId ∈ (reached P cfg before).sharedWith userId := by
    simp only [Tables.mem_sharedWith, hs.shares]
  constructor
  · intro hreaches userId hshared hne
    have hdelivered := hreaches ⟨userId⟩ (Or.inr ((hmember userId).mpr hshared)) 0 (seq - 1)
      (sub_one_lt seq)
    exact ((delivers_groupWrite h hs (sub_one_lt seq)).mp hdelivered).resolve_left hne.symm
  · intro hlabelled reader hreader now cursor hcursor
    rw [delivers_groupWrite h hs hcursor]
    by_cases hne : reader.accountId = ownerId
    · exact Or.inl hne.symm
    · exact Or.inr (hlabelled _ ((hmember _).mp (hreader.resolve_left hne)) hne)

/-- What is written for the group reaches it exactly if it is labelled for its members. -/
theorem groupWritesReach_iff (P : Platform) (cfg : Config) (ownerId groupId : String)
    (arrivals : List Arrival) :
    GroupWritesReach P cfg ownerId groupId arrivals ↔
      GroupWritesLabelled P cfg ownerId groupId arrivals := by
  constructor
  · rintro hreach before a after rfl e seq caller body h hs
    exact (reachesGroup_iff h hs).mp (hreach before a after rfl e seq caller body h hs)
  · rintro hlabelled before a after rfl e seq caller body h hs
    exact (reachesGroup_iff h hs).mpr (hlabelled before a after rfl e seq caller body h hs)

theorem groupWritesLabelled_of_headers {arrivals : List Arrival}
    (h : ∀ a ∈ arrivals, ∀ p ∈ a.pushes, ∀ e ∈ p.2, e.keyRef = .group groupId →
      e.groupId = some groupId) :
    GroupWritesLabelled P cfg ownerId groupId arrivals := by
  rintro before a after rfl e seq caller body hwrite _ userId hshared _
  obtain ⟨first, accountId, rest, hfiled, _⟩ := hwrite.stores
  have hbody : e ∈ body := (Sync.routed_of_filed hfiled).1
  have hheader := h a (by simp) (caller, body) hwrite.push e hbody hwrite.keyed
  exact ⟨groupId, hheader, hshared⟩

section Runs

open Reference

def sharing : List Arrival := accounts ++ [⟨1, .createShare ⟨"ada"⟩ ⟨"g", "bob", "wrapped"⟩⟩]

def groupHost (label : Option String) : Envelope := host "h" (.group "g") label 5

def memberWrite (label : Option String) : Arrival := ⟨2, .push ⟨"bob"⟩ [groupHost label]⟩

theorem shares_sharing :
    (∀ s ∈ (reached .reference config sharing).shares.rows, s.groupId = "g" → s.ownerId = "ada") ∧
    "g" ∈ (reached .reference config sharing).sharedWith "bob" ∧
    "inner" ∉ (reached .reference config sharing).sharedWith "bob" := by
  decide +kernel

/-- With a header that names another group the record is filed under Ada and accepted. -/
theorem run_memberWrite :
    Sync.filed .reference config ⟨"bob"⟩ 2 (reached .reference config sharing).toTables
      [groupHost (some "inner")] = [] ++ ("ada", groupHost (some "inner")) :: [] ∧
    (putEnvelope .reference "ada" (groupHost (some "inner"))
      (puts .reference (reached .reference config sharing) [])).1 = .ok (some 1) ∧
    Sync.answered .reference config ⟨"bob"⟩ 2 [groupHost (some "inner")]
      (reached .reference config sharing) ⟨[⟨"h", "host", 1⟩], [], 1⟩ ∧
    ∃ r ∈ (reached .reference config (sharing ++ [memberWrite (some "inner")])).records.rows,
      r.seq = 1 := by
  decide +kernel

theorem groupWrite_memberWrite :
    GroupWrite .reference config "ada" "g" sharing (memberWrite (some "inner"))
      (groupHost (some "inner")) 1 ⟨"bob"⟩ [groupHost (some "inner")] where
  sharedByOwner := shares_sharing.1
  push := rfl
  inside := Or.inr shares_sharing.2.1
  keyed := rfl
  stores := ⟨[], "ada", [], run_memberWrite.1, run_memberWrite.2.1⟩
  reported := ⟨⟨[⟨"h", "host", 1⟩], [], 1⟩, run_memberWrite.2.2.1, List.mem_singleton.mpr rfl⟩

theorem stands_memberWrite :
    Stands .reference config sharing (memberWrite (some "inner")) [] 1 where
  current := run_memberWrite.2.2.2
  shares s := by
    rw [reached_snoc, serve_push rfl, (Sync.afterPush_frame (wellFormed_reached sharing)).2.1]

/-- The record stands in a group inside the shared one, which its header names, and never comes
back to Bob. -/
theorem inner_write_lost :
    ¬ GroupWritesReach .reference config "ada" "g" (sharing ++ [memberWrite (some "inner")]) := by
  intro h
  have hreaches := h sharing (memberWrite (some "inner")) [] rfl _ _ _ _ groupWrite_memberWrite
    stands_memberWrite
  have hbob : "g" ∈ (reached .reference config
      (sharing ++ [memberWrite (some "inner")])).sharedWith "bob" := by
    obtain ⟨s, hs, hkey⟩ := Tables.mem_sharedWith.mp shares_sharing.2.1
    exact Tables.mem_sharedWith.mpr ⟨s, (stands_memberWrite.shares s).mpr hs, hkey⟩
  have hdelivered := hreaches ⟨"bob"⟩ (Or.inr hbob) 3 0 (by decide)
  rcases (delivers_groupWrite groupWrite_memberWrite stands_memberWrite (by decide)).mp hdelivered
    with howner | ⟨g, hg, hshared⟩
  · exact absurd howner (by decide)
  · obtain rfl : "inner" = g := Option.some.inj hg
    exact shares_sharing.2.2 hshared

/-- With a header that names the group it reaches Ada and Bob. -/
theorem labelled_write_reaches :
    GroupWritesReach .reference config "ada" "g" (sharing ++ [memberWrite (some "g")]) :=
  (groupWritesReach_iff .reference config "ada" "g" (sharing ++ [memberWrite (some "g")])).mpr
    (groupWritesLabelled_of_headers (by decide +kernel))

end Runs

end RemotierSync.Delivery
