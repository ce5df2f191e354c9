import RemotierSync.Rejections

/-!
# No clock wins forever

The server takes no clock that is further ahead of its own than `maxClockSkewMs`. A row whose
clock stands at that limit wins every conflict for as long as the limit has not moved on. As soon
as the server's clock has, an envelope stamped with the new limit is newer than every row that
can be stored, and takes the row from it, whatever device wrote either.
-/

namespace RemotierSync.Clocks

open SqliteStore Server

variable (P : Platform) (cfg : Config)

/-- The account under which an envelope of the caller's is filed, if the shares let the caller
write it. -/
def storageAccount (caller : Caller) (t : Tables) (e : Envelope) : Option String :=
  match e.keyRef with
  | .personal => some caller.accountId
  | .group groupId =>
    if t.canWriteGroup caller.accountId groupId then
      some ((t.shareOwner P groupId).getD caller.accountId)
    else none

/-- An envelope of the row's key, stamped with the limit, that the caller may write to the row. -/
structure Challenges (t : ℤ) (caller : Caller) (db : SqliteDb) (e : Envelope) (r : RecordEntry) :
    Prop where
  kind_eq : e.kind.asStr = r.kind
  id_eq : e.id = r.id
  updatedAt_eq : e.updatedAt = t + maxClockSkewMs
  size_le : e.ciphertext.length ≤ cfg.maxRecordBytes
  account_eq : storageAccount P caller db.toTables e = some r.accountId

/-- In every batch that holds no other envelope of the key before it, the envelope is accepted and
takes the row. -/
def Takes (t : ℤ) (caller : Caller) (db : SqliteDb) (e : Envelope) (r : RecordEntry) : Prop :=
  ∀ before after, (∀ e' ∈ before, (e'.kind, e'.id) ≠ (e.kind, e.id)) →
    ∃ resp seq, Sync.answered P cfg caller t (before ++ e :: after) db resp ∧
      ⟨e.id, e.kind.asStr, seq⟩ ∈ resp.accepted ∧
      (Sync.afterPush P cfg caller t (before ++ [e]) db).records.find? r.key =
        some (P.recordEntry r.accountId e seq)

variable {P} {cfg} {t now : ℤ} {caller : Caller} {db : SqliteDb} {e : Envelope} {r : RecordEntry}
  {a : Arrival} {arrivals : List Arrival} {accountId : String} {tables : Tables}

/-! ## The limit -/

theorem refuse_eq_none : Sync.refuse cfg e now = none ↔
    e.updatedAt ≤ now + maxClockSkewMs ∧ e.ciphertext.length ≤ cfg.maxRecordBytes := by
  unfold Sync.refuse clockIsPlausible
  split_ifs with hclock hsize
  · simp_all
  · simp_all
  · simp_all

theorem route_iff : Sync.route P cfg caller now tables e = .ok accountId ↔
    Sync.refuse cfg e now = none ∧ storageAccount P caller tables e = some accountId := by
  rw [Sync.route_eq_ok, storageAccount]
  cases e.keyRef <;> simp

theorem updatedAt_le_of_serve (hdb : WellFormed db) (hr : r ∈ (serve P cfg db a).records.rows) :
    r ∈ db.records.rows ∨ r.updatedAt ≤ a.now + maxClockSkewMs := by
  by_cases hold : r ∈ db.records.rows
  · exact Or.inl hold
  · obtain ⟨caller, body, _, hr⟩ := exists_push_of_new_row hr hold
    obtain ⟨e, _, htakes, hrow, _⟩ := Sync.new_row_of_push hdb hr hold
    have hrefuse := (route_iff.mp (Sync.filed_of_takes htakes).2.1).1
    rw [hrow]
    exact Or.inr (refuse_eq_none.mp hrefuse).1

theorem updatedAt_le_of_reached (hnow : ∀ a ∈ arrivals, a.now ≤ now)
    (hr : r ∈ (reached P cfg arrivals).records.rows) : r.updatedAt ≤ now + maxClockSkewMs := by
  induction arrivals using List.reverseRecOn with
  | nil => simp [reached] at hr
  | append_singleton arrivals a ih =>
    rw [List.forall_mem_append, List.forall_mem_singleton] at hnow
    rw [reached_snoc] at hr
    rcases updatedAt_le_of_serve (wellFormed_reached arrivals) hr with hold | hlimit
    · exact ih hnow.1 hold
    · have := hnow.2
      omega

/-! ## The challenger -/

theorem exists_account (hdb : WellFormed db) (hr : r ∈ db.records.rows)
    (h : Challenges P cfg t caller db e r) : db.accountById caller.accountId ≠ none := by
  have hrow := hdb.record_accounts r hr
  by_cases howner : r.accountId = caller.accountId
  · rwa [← howner]
  · have hroute : Sync.route P cfg caller t db.toTables e = .ok r.accountId :=
      route_iff.mpr ⟨refuse_eq_none.mpr ⟨h.updatedAt_eq.le, h.size_le⟩, h.account_eq⟩
    exact (Sync.accounts_of_route_foreign hdb hroute howner).1

theorem find?_afterPush_of_absent {k : String × String × String} {body : List Envelope}
    (hdb : WellFormed db) (hcaller : db.accountById caller.accountId ≠ none)
    (hk : db.accountById k.1 ≠ none) (h : ∀ e ∈ body, (e.kind.asStr, e.id) ≠ k.2) :
    (Sync.afterPush P cfg caller t body db).records.find? k = db.records.find? k := by
  rw [Sync.afterPush_of_account hdb hcaller]
  apply find?_puts_of_winner_eq_none hk
  rw [winner_eq_none]
  intro e he
  obtain ⟨hfiled, hkey⟩ := mem_envelopesAt.mp he
  exact absurd (congrArg Prod.snd hkey) (h e (Sync.mem_filed.mp hfiled).1)

theorem mem_accepted {before after : List Envelope} {os₁ os₂ : List Sync.Outcome} {seq : ℤ}
    (h : os₁.length = before.length) : ⟨e.id, e.kind.asStr, seq⟩ ∈
      (Sync.reportOn (before ++ e :: after) (os₁ ++ .ok seq :: os₂)).accepted := by
  simp only [Sync.reportOn, List.zip_append h.symm, List.zip_cons_cons, List.filterMap_append,
    List.mem_append, List.filterMap_cons, Sync.acceptedOf]
  exact Or.inr List.mem_cons_self

theorem Challenges.recordKey_eq (h : Challenges P cfg t caller db e r) :
    recordKey r.accountId e = r.key := by
  rw [recordKey, h.kind_eq, h.id_eq]
  rfl

/-- Wherever the row still stands, an envelope with a greater clock takes it. -/
theorem outcome_of_challenges {db₁ : SqliteDb} (hrow : db₁.accountById r.accountId ≠ none)
    (hlimit : r.updatedAt < t + maxClockSkewMs) (h : Challenges P cfg t caller db e r)
    (hshares : db₁.shares = db.shares) (hfind : db₁.records.find? r.key = some r) :
    ∃ db₂, Sync.outcome P cfg caller t e db₁ = (.ok (.ok (db₁.next + 1)), db₂) ∧
      db₂.records.find? r.key = some (P.recordEntry r.accountId e (db₁.next + 1)) := by
  have hroute : Sync.route P cfg caller t db₁.toTables e = .ok r.accountId := by
    rw [Sync.route_congr hshares, route_iff]
    exact ⟨refuse_eq_none.mpr ⟨h.updatedAt_eq.le, h.size_le⟩, h.account_eq⟩
  have hfile : Fileable db₁ r.accountId e := fileable_of_account hrow
  rw [← h.recordKey_eq] at hfind ⊢
  have hsup : Supersedes (db₁.records.find? (recordKey r.accountId e)) e.clock := by
    intro r' hr'
    obtain rfl := Option.some.inj (hfind.symm.trans hr')
    rw [Clock.lt_iff]
    exact Or.inl (hlimit.trans_eq h.updatedAt_eq.symm)
  refine ⟨(putEnvelope P r.accountId e db₁).2, ?_, ?_⟩
  · rw [Sync.outcome_of_fileable hroute hfile, if_pos hsup]
  · rw [find?_putEnvelope hfile, if_pos ⟨rfl, hsup⟩]

theorem find?_behind {before : List Envelope} (hdb : WellFormed db) (hr : r ∈ db.records.rows)
    (h : Challenges P cfg t caller db e r)
    (hbefore : ∀ e' ∈ before, (e'.kind, e'.id) ≠ (e.kind, e.id)) :
    (Sync.afterPush P cfg caller t before db).records.find? r.key = some r := by
  rw [find?_afterPush_of_absent hdb (exists_account hdb hr h) (hdb.record_accounts r hr),
    KeyedTable.find?_isSome_of_mem hr]
  intro e' he' heq
  apply hbefore e' he'
  rw [← h.recordKey_eq] at heq
  obtain ⟨hkind, hid⟩ := Prod.mk.inj heq
  rw [RecordKind.asStr_injective hkind, hid]

theorem takes_of_challenges (hdb : WellFormed db) (hr : r ∈ db.records.rows)
    (hlimit : r.updatedAt < t + maxClockSkewMs) (h : Challenges P cfg t caller db e r) :
    Takes P cfg t caller db e r := by
  intro before after hbefore
  have hcaller := exists_account hdb hr h
  obtain ⟨resp, hresp⟩ := Sync.push_isOk P cfg t (before ++ e :: after) hdb hcaller
  obtain ⟨os, db', hos, rfl⟩ := Sync.outcomes_of_answered hresp
  obtain ⟨os₁, o, os₂, db₁, db₂, h₁, ho, _, rfl⟩ := Sync.outcomes_split hos
  have hbehind := Sync.afterPush_of_outcomes h₁
  have haccounts : (Sync.afterPush P cfg caller t before db).accounts = db.accounts :=
    (Sync.afterPush_frame hdb).1
  have hshares : (Sync.afterPush P cfg caller t before db).shares = db.shares :=
    (Sync.afterPush_frame hdb).2.1
  have hfind := find?_behind hdb hr h hbefore
  rw [hbehind] at haccounts hshares hfind
  have hrow₁ : db₁.accountById r.accountId ≠ none := by
    rw [Tables.accountById, haccounts]
    exact hdb.record_accounts r hr
  obtain ⟨db₂', ho', hfind'⟩ := outcome_of_challenges hrow₁ hlimit h hshares hfind
  obtain ⟨hok, rfl⟩ := Prod.mk.inj (ho'.symm.trans ho)
  obtain rfl := Except.ok.inj hok
  refine ⟨_, db₁.next + 1, hresp, mem_accepted (Traversal.Visits.length_eq h₁), ?_⟩
  rw [Sync.afterPush_snoc h₁ ho]
  exact hfind'

/-- After a run whose clock has not read later than `now`, every row's clock is within the limit,
and at every later time every envelope that challenges a row takes it. -/
theorem rows_challenged (P : Platform) (cfg : Config) (arrivals : List Arrival) (now : ℤ)
    (hnow : ∀ a ∈ arrivals, a.now ≤ now) :
    (∀ r ∈ (reached P cfg arrivals).records.rows, r.updatedAt ≤ now + maxClockSkewMs) ∧
      ∀ t, now < t → ∀ caller e, ∀ r ∈ (reached P cfg arrivals).records.rows,
        Challenges P cfg t caller (reached P cfg arrivals) e r →
          Takes P cfg t caller (reached P cfg arrivals) e r := by
  refine ⟨fun r => updatedAt_le_of_reached hnow, ?_⟩
  intro t ht caller e r hr
  have hlimit := updatedAt_le_of_reached hnow hr
  exact takes_of_challenges (wellFormed_reached arrivals) hr (by omega)

section Runs

open Reference

/-- Bob's clock is a day ahead when he writes a record of the group that he shares with Ada. -/
def dayAhead : List Arrival := accounts ++ [
  ⟨1, .createShare ⟨"ada"⟩ ⟨"g", "bob", "wrapped"⟩⟩,
  ⟨2, .push ⟨"bob"⟩ [{ sharedHost (2 + maxClockSkewMs) with deviceId := "z" }]⟩]

/-- Ada's answer, a millisecond later, from a device whose id is not greater. -/
def dislodging : Envelope := sharedHost (3 + maxClockSkewMs)

theorem run_dayAhead : (reached .reference config dayAhead).records.rows =
      [Platform.reference.recordEntry "ada"
        { sharedHost (2 + maxClockSkewMs) with deviceId := "z" } 1] ∧
    storageAccount .reference ⟨"ada"⟩ (reached .reference config dayAhead).toTables dislodging =
      some "ada" := by
  decide +kernel

theorem dayAhead_dislodged :
    (∀ r ∈ (reached .reference config dayAhead).records.rows,
      r.updatedAt ≤ 2 + maxClockSkewMs) ∧
    ∀ r ∈ (reached .reference config dayAhead).records.rows,
      Takes .reference config 3 ⟨"ada"⟩ (reached .reference config dayAhead) dislodging r := by
  obtain ⟨hlimit, htakes⟩ := rows_challenged .reference config dayAhead 2 (by decide)
  refine ⟨hlimit, ?_⟩
  intro r hr
  refine htakes 3 (by decide) ⟨"ada"⟩ dislodging r hr ?_
  rw [run_dayAhead.1, List.mem_singleton] at hr
  obtain rfl := hr
  exact ⟨rfl, rfl, rfl, by decide, run_dayAhead.2⟩

end Runs

end RemotierSync.Clocks
