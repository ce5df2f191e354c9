import RemotierSync.Pages

/-!
# Rows of unknown kinds

A newer build may have written records of a kind that this build does not know, and a database
outlives a rollback. Such a row should be skipped. The store decodes the rows of a page all or
none: with one that does not decode among those that an account sees behind its cursor, the pull
that comes to it fails, the cursor stands, and no later pull gets past it. A walk skips the
unknown kinds only where there is none to skip.
-/

namespace RemotierSync.UnknownKinds

open SqliteStore Pages

variable (P : Platform) (cfg : Config) (caller : Caller) (now : ℤ) (db : SqliteDb)

def isKnown (r : RecordEntry) : Bool := (RecordKind.parse r.kind).isSome

/-- The walk ends and returns the rows of known kinds that the account sees behind the cursor, in
the order of the log. -/
def SkipsUnknown (cursor : ℤ) : Prop :=
  ∃ pages resps, walk P cfg caller now db pages cursor = some resps ∧
    List.Forall₂ (Sync.Decodes P) ((db.pullRows caller.accountId cursor).filter isKnown)
      (resps.flatMap PullResponse.envelopes)

/-- The row is of a known kind, and its other columns hold what was written to them. -/
structure Readable (r : RecordEntry) : Prop where
  kind : isKnown r = true
  keyRef : ∃ keyRef, P.keyRefFromStr r.keyRef = .ok keyRef
  nonce : ∃ bytes, P.base64Decode r.nonce = .ok bytes
  ciphertext : ∃ bytes, P.base64Decode r.ciphertext = .ok bytes

/-- The write of a newer build, which puts a row of whatever kind as this build puts an envelope. -/
def putNewer (r : RecordEntry) : SqliteDb :=
  match db.toTables.putRecord textGt { r with seq := db.next + 1 } with
  | (.ok _, t) => { t with next := db.next + 1 }
  | (.error _, _) => db

inductive Event where
  | request (a : Arrival)
  | newer (r : RecordEntry)

def step : Event → SqliteDb
  | .request a => Server.serve P cfg db a
  | .newer r => putNewer db r

def reached (events : List Event) : SqliteDb := History.run (step P cfg) .migrated events

variable {P} {cfg} {caller} {now} {db} {cursor : ℤ} {r : RecordEntry}

theorem wellFormed_putNewer (h : WellFormed db) (r : RecordEntry) :
    WellFormed (putNewer db r) := by
  unfold putNewer
  by_cases hfile : db.toTables.Fileable { r with seq := db.next + 1 }
  · rw [Tables.putRecord_of_fileable hfile]
    exact wellFormed_upsertRecord h rfl hfile
  · rw [Tables.putRecord_of_not_fileable hfile]
    exact h

theorem wellFormed_reached (events : List Event) : WellFormed (reached P cfg events) := by
  apply History.run_invariant wellFormed_migrated
  intro db event hdb
  cases event with
  | request a => exact Server.wellFormed_serve hdb
  | newer r => exact wellFormed_putNewer hdb r

theorem readable_iff : Readable P r ↔ ∃ e, P.envelopeFromRow r = .ok e := by
  simp only [envelopeFromRow_eq_ok]
  constructor
  · rintro ⟨hkind, ⟨keyRef, hkeyRef⟩, ⟨nonce, hnonce⟩, ⟨ciphertext, hciphertext⟩⟩
    obtain ⟨kind, hkind⟩ := Option.isSome_iff_exists.mp hkind
    exact ⟨_, kind, keyRef, nonce, ciphertext, hkind, hkeyRef, hnonce, hciphertext, rfl⟩
  · rintro ⟨_, kind, keyRef, nonce, ciphertext, hkind, hkeyRef, hnonce, hciphertext, _⟩
    exact ⟨Option.isSome_iff_exists.mpr ⟨kind, hkind⟩, ⟨keyRef, hkeyRef⟩, ⟨nonce, hnonce⟩,
      ⟨ciphertext, hciphertext⟩⟩

/-- What a walk gets past is readable. -/
theorem readable_of_walk (hd : ChangeLog.Distinct RecordEntry.seq db.records.rows) {pages : ℕ}
    {resps : List PullResponse} (h : walk P cfg caller now db pages cursor = some resps)
    (hr : r ∈ db.pullRows caller.accountId cursor) : Readable P r := by
  obtain ⟨e, _, hrow⟩ := Sync.exists_envelope_of_decodes (decodes_of_walk hd h).1 hr
  exact readable_iff.mpr ⟨e, hrow⟩

/-- A walk skips the unknown kinds exactly if every row that the account sees behind the cursor is
readable. -/
theorem skipsUnknown_iff (P : Platform) (cfg : Config) (caller : Caller) (now : ℤ) (db : SqliteDb)
    (cursor : ℤ) (hd : ChangeLog.Distinct RecordEntry.seq db.records.rows) :
    SkipsUnknown P cfg caller now db cursor ↔ ∀ r ∈ db.records.rows,
      db.visible caller.accountId r = true → cursor < r.seq → Readable P r := by
  constructor
  · rintro ⟨pages, resps, hwalk, _⟩ r hr hvis hcursor
    exact readable_of_walk hd hwalk (Tables.mem_pullRows.mpr ⟨⟨hr, hvis⟩, hcursor⟩)
  · intro h
    have hread : ∀ r ∈ db.pullRows caller.accountId cursor, Readable P r := by
      intro r hr
      obtain ⟨⟨hmem, hvis⟩, hcursor⟩ := Tables.mem_pullRows.mp hr
      exact h r hmem hvis hcursor
    obtain ⟨resps, hwalk⟩ := exists_walk cfg caller now cursor hd
      (fun r hr => readable_iff.mp (hread r hr))
    refine ⟨_, resps, hwalk _ (Nat.lt_succ_self _), ?_⟩
    rw [List.filter_eq_self.mpr (fun r hr => (hread r hr).kind)]
    exact (decodes_of_walk hd (hwalk _ (Nat.lt_succ_self _))).1

section Runs

open Reference

def snippet : RecordEntry :=
  { Platform.reference.recordEntry "ada" (host "s" .personal none 5) 0 with kind := "snippet" }

/-- Her own record, and what a newer build has written before the rollback. -/
def beforeRollback (newer : List RecordEntry) : List Event :=
  [.request (registration "ada"), .request ⟨1, .push ⟨"ada"⟩ [host "h" .personal none 5]⟩] ++
    newer.map Event.newer

theorem run_beforeRollback :
    { snippet with seq := 2 } ∈
      (reached .reference config (beforeRollback [snippet])).records.rows := by
  decide +kernel

/-- Behind Ada's record stands one that her pulls do not get past. -/
theorem snippet_fatal :
    ¬ ∀ (P : Platform) (cfg : Config) (caller : Caller) (now : ℤ) (db : SqliteDb) (cursor : ℤ),
      ChangeLog.Distinct RecordEntry.seq db.records.rows →
        SkipsUnknown P cfg caller now db cursor := by
  intro h
  have hdb : WellFormed (reached .reference config (beforeRollback [snippet])) :=
    wellFormed_reached _
  obtain ⟨pages, resps, hwalk, _⟩ := h .reference config ⟨"ada"⟩ 2 _ 1 hdb.distinct
  have hrow : { snippet with seq := 2 } ∈
      (reached .reference config (beforeRollback [snippet])).pullRows "ada" 1 :=
    Tables.mem_pullRows.mpr ⟨⟨run_beforeRollback, rfl⟩, by decide⟩
  exact absurd (readable_of_walk hdb.distinct hwalk hrow).kind (by decide)

theorem known_kinds_pulled :
    SkipsUnknown .reference config ⟨"ada"⟩ 2 (reached .reference config (beforeRollback [])) 0 := by
  have hrows : (reached .reference config (beforeRollback [])).records.rows =
      [Platform.reference.recordEntry "ada" (host "h" .personal none 5) 1] := by
    decide +kernel
  refine (skipsUnknown_iff .reference config ⟨"ada"⟩ 2 _ 0 (wellFormed_reached _).distinct).mpr ?_
  intro r hr _ _
  rw [hrows, List.mem_singleton] at hr
  obtain rfl := hr
  exact readable_iff.mpr ⟨_, envelopeFromRow_recordEntry⟩

end Runs

end RemotierSync.UnknownKinds
