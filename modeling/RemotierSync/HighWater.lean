import RemotierSync.Backend
import RemotierSync.Reference

/-!
# The cursor that a push answers

A push answers with the high-water mark of the change log, for either backend. A number that a
write is stored under was above the mark before the write and is not after it, so the mark is a
cursor behind which nothing is stored later. The counter of SQLite is that mark. The sequence of
Postgres reports its first value before it has returned it: until the first write draws a number
the answer is 1, and 1 is the number of the first row.
-/

namespace RemotierSync

namespace Backend

variable (B : Backend) (P : Platform) (cfg : Config)

/-- No number that the response reports is above its cursor, and none that a later push reports is
at or below it. -/
structure NeverAhead (s : B.State) (now : ℤ) (caller : Caller) (body : List Envelope)
    (resp : PushResponse) : Prop where
  accepted : ∀ a ∈ resp.accepted, a.seq ≤ resp.cursor
  later : ∀ arrivals now' caller' body' resp',
    (B.push cfg (History.run (B.serve P cfg) (B.push cfg s now caller body).2 arrivals) now'
      caller' body').1 = .ok resp' → ∀ a ∈ resp'.accepted, resp.cursor < a.seq

variable {B} {P} {cfg} {execute : ℤ → (c : Call) → B.State → Except Error c.Ret × B.State}
  {drawn : B.State → ℤ} {s s' : B.State} {now : ℤ} {caller : Caller}
  {body : List Envelope} {e : Envelope} {resp : PushResponse}

/-! ## Numbers -/

theorem accepted_between {st' : Sync.PushState} (hB : B.Lawful P execute drawn)
    (h : Program.run (B.exec now) (Sync.pushAll cfg caller now body .initial) s = (.ok st', s')) :
    drawn s ≤ drawn s' ∧ ∀ a ∈ st'.report.accepted, drawn s < a.seq ∧ a.seq ≤ drawn s' := by
  apply loop_induction hB (I := fun _ rep s' => drawn s ≤ drawn s' ∧
    ∀ a ∈ rep.accepted, drawn s < a.seq ∧ a.seq ≤ drawn s') ?_ ⟨le_rfl, by simp⟩ h
  · rintro done e rep rep' s₁ s₂ ⟨hle, hbetween⟩ hhandled
    cases hhandled with
    | refused _ => exact ⟨hle, hbetween⟩
    | accepted _ hput =>
      obtain ⟨hgrows, hseq⟩ := hB.fresh now _ e s₁ _ s₂ hput
      obtain ⟨hlow, hhigh⟩ := hseq _ rfl
      refine ⟨hle.trans hgrows, ?_⟩
      intro a ha
      rcases List.mem_append.mp ha with ha | ha
      · exact ⟨(hbetween a ha).1, (hbetween a ha).2.trans hgrows⟩
      · rw [List.mem_singleton.mp ha]
        exact ⟨hle.trans_lt hlow, hhigh⟩
    | stale _ hput =>
      obtain ⟨hgrows, _⟩ := hB.fresh now _ e s₁ _ s₂ hput
      exact ⟨hle.trans hgrows, fun a ha => ⟨(hbetween a ha).1, (hbetween a ha).2.trans hgrows⟩⟩

theorem drawn_run (hB : B.Lawful P execute drawn) {α : Type} (p : Handler α) :
    drawn s ≤ drawn (Program.run (B.exec now) p s).2 :=
  Program.run_invariant (I := fun s' => drawn s ≤ drawn s')
    (fun c s' h => h.trans (hB.grows now c s')) p le_rfl

theorem drawn_serves (hB : B.Lawful P execute drawn) (arrivals : List Arrival) :
    drawn s ≤ drawn (History.run (B.serve P cfg) s arrivals) :=
  History.run_invariant (I := fun s' => drawn s ≤ drawn s') le_rfl
    (fun _ _ h => h.trans (drawn_run hB _)) arrivals

theorem neverAhead_of_drawn (hB : B.Lawful P execute drawn)
    (h : (B.push cfg s now caller body).1 = .ok resp)
    (hcursor : resp.cursor = drawn (B.push cfg s now caller body).2) :
    B.NeverAhead P cfg s now caller body resp where
  accepted a ha := by
    obtain ⟨st, s', hloop, haccepted, _, _, hpushed⟩ := exists_loop_of_push h
    rw [haccepted] at ha
    have hgrows := hB.grows now (.maxSeq caller.accountId) s'
    rw [hcursor, hpushed]
    exact ((accepted_between hB hloop).2 a ha).2.trans hgrows
  later arrivals now' caller' body' resp' h' a ha := by
    obtain ⟨st, s', hloop, haccepted, _⟩ := exists_loop_of_push h'
    rw [haccepted] at ha
    rw [hcursor]
    exact (drawn_serves hB arrivals).trans_lt ((accepted_between hB hloop).2 a ha).1

/-! ## SQLite -/

theorem lawful_sqlite : (sqlite P).Lawful P (SqliteStore.exec P) SqliteDb.next where
  answered now c s r s' h := h
  groups _ := .sqlite
  shares now accountId e db := SqliteStore.putEnvelope_shares
  grows now c db := SqliteStore.grows_exec.1
  fresh now accountId e db seq db' h := by
    have hput : SqliteStore.putEnvelope P accountId e db = (.ok seq, db') := h
    have hgrows : SqliteStore.Grows db (SqliteStore.putEnvelope P accountId e db).2 :=
      SqliteStore.grows_putEnvelope
    rw [hput] at hgrows
    refine ⟨hgrows.1, fun n hn => ?_⟩
    obtain rfl : seq = some n := hn
    have haccepted := congrArg Prod.fst hput
    have hnext : db'.next = n := by
      rw [← SqliteStore.next_of_accepted haccepted, hput]
    obtain ⟨_, _, hseq⟩ := SqliteStore.of_accepted haccepted
    change db.next < n ∧ n ≤ db'.next
    omega

/-! ## Postgres -/

section Postgres

variable {textGt : String → String → Bool} {db : PostgresDb}

def lastDrawn (db : PostgresDb) : ℤ := db.recordSeq.peek - 1

theorem recordSeq_putEnvelope {accountId : String} :
    (PostgresStore.putEnvelope P textGt accountId e db).2.recordSeq = db.recordSeq.nextval.2 := rfl

theorem recordSeq_exec {c : Call} (h : ∀ accountId e, c ≠ .putEnvelope accountId e) :
    (PostgresStore.exec P textGt now c db).2.recordSeq = db.recordSeq := by
  apply PostgresStore.exec_induction (motive := fun db' => db'.recordSeq = db.recordSeq) rfl
  cases c with
  | putEnvelope accountId e => exact absurd rfl (h accountId e)
  | _ => rfl

theorem lastDrawn_putEnvelope {accountId : String} :
    lastDrawn (PostgresStore.putEnvelope P textGt accountId e db).2 = db.recordSeq.peek := by
  have hpeek : db.recordSeq.nextval.2.peek = db.recordSeq.peek + 1 := rfl
  rw [lastDrawn, recordSeq_putEnvelope, hpeek]
  omega

theorem lastDrawn_exec (c : Call) :
    lastDrawn db ≤ lastDrawn (PostgresStore.exec P textGt now c db).2 := by
  by_cases hput : ∃ accountId e, c = .putEnvelope accountId e
  · obtain ⟨accountId, e, rfl⟩ := hput
    apply PostgresStore.exec_induction (motive := fun db' => lastDrawn db ≤ lastDrawn db') le_rfl
    have hdrawn : lastDrawn (PostgresStore.putEnvelope P textGt accountId e db).2 =
        db.recordSeq.peek := lastDrawn_putEnvelope
    change lastDrawn db ≤ lastDrawn (PostgresStore.putEnvelope P textGt accountId e db).2
    rw [hdrawn, lastDrawn]
    omega
  · push Not at hput
    rw [lastDrawn, lastDrawn, recordSeq_exec hput]

theorem drawn_of_accepted {accountId : String} {seq : ℤ}
    (h : (PostgresStore.putEnvelope P textGt accountId e db).1 = .ok (some seq)) :
    seq = db.recordSeq.peek := by
  by_cases hfile : db.toTables.Fileable (P.recordEntry accountId e db.recordSeq.peek)
  · rw [PostgresStore.putEnvelope_of_fileable hfile] at h
    dsimp only at h
    split_ifs at h
    · exact (Option.some.inj (Except.ok.inj h)).symm
    · cases Except.ok.inj h
  · rw [PostgresStore.putEnvelope_of_not_fileable hfile] at h
    cases h

theorem shares_putEnvelope (accountId : String) :
    (PostgresStore.putEnvelope P textGt accountId e db).2.shares = db.shares := by
  by_cases hfile : db.toTables.Fileable (P.recordEntry accountId e db.recordSeq.peek)
  · rw [PostgresStore.putEnvelope_of_fileable hfile]
  · rw [PostgresStore.putEnvelope_of_not_fileable hfile]

theorem lawful_postgres :
    (postgres P textGt).Lawful P (PostgresStore.execute P textGt) lastDrawn where
  answered now c db r db' h := PostgresStore.execute_of_exec h
  groups _ := ⟨fun _ _ _ => rfl, fun _ _ => rfl⟩
  shares now accountId e db := shares_putEnvelope accountId
  grows now c db := lastDrawn_exec c
  fresh now accountId e db seq db' h := by
    have hput : PostgresStore.putEnvelope P textGt accountId e db = (.ok seq, db') := h
    have hdrawn : lastDrawn (PostgresStore.putEnvelope P textGt accountId e db).2 =
        RecordSeq.peek db.recordSeq := lastDrawn_putEnvelope
    have hless : lastDrawn db < RecordSeq.peek db.recordSeq := Int.sub_one_lt_of_le le_rfl
    rw [hput] at hdrawn
    refine ⟨hless.le.trans hdrawn.ge, fun n hn => ?_⟩
    obtain rfl : seq = some n := hn
    have hseq : n = RecordSeq.peek db.recordSeq := drawn_of_accepted (congrArg Prod.fst hput)
    exact ⟨hless.trans_eq hseq.symm, hseq.trans_le hdrawn.ge⟩

/-- A sequence that has returned no number is a new one, and no row has been stored. -/
def Unused (db : PostgresDb) : Prop :=
  db.recordSeq.isCalled = false → db.recordSeq = .start ∧ db.records.rows = []

theorem records_exec {c : Call} (h : ∀ accountId e, c ≠ .putEnvelope accountId e) :
    (PostgresStore.exec P textGt now c db).2.records = db.records := by
  apply PostgresStore.exec_induction (motive := fun db' => db'.records = db.records) rfl
  cases c with
  | createAccount id new =>
    obtain ⟨accounts, hframe⟩ := Tables.createAccount_frame (t := db.toTables) P
      PostgresStore.emailEq id new
    simp only [PostgresStore.execute, PostgresDb.onTables, hframe]
  | putToken hash id kind expiresAt =>
    obtain ⟨tokens, hframe⟩ := Tables.putToken_frame (t := db.toTables) hash id kind expiresAt
    simp only [PostgresStore.execute, PostgresDb.onTables, hframe]
  | putShare ownerId groupId userId wrapped =>
    obtain ⟨shares, hframe⟩ :=
      Tables.putShare_frame (t := db.toTables) now ownerId groupId userId wrapped
    simp only [PostgresStore.execute, PostgresDb.onTables, hframe]
  | touchDevice id deviceId name =>
    obtain ⟨devices, hframe⟩ := Tables.touchDevice_frame (t := db.toTables) now id deviceId name
    simp only [PostgresStore.execute, PostgresDb.onTables, hframe]
  | putEnvelope accountId e => exact absurd rfl (h accountId e)
  | _ => rfl

theorem unused_exec {c : Call} (h : Unused db) :
    Unused (PostgresStore.exec P textGt now c db).2 := by
  by_cases hput : ∃ accountId e, c = .putEnvelope accountId e
  · obtain ⟨accountId, e, rfl⟩ := hput
    exact PostgresStore.exec_induction h (fun hcalled => absurd hcalled Bool.noConfusion)
  · push Not at hput
    rw [Unused, recordSeq_exec hput, records_exec hput]
    exact h

theorem unused_reached (arrivals : List Arrival) :
    Unused ((postgres P textGt).reached P cfg arrivals) :=
  History.run_invariant (fun _ => ⟨rfl, rfl⟩)
    (fun _ _ h => Program.run_invariant (fun _ _ => unused_exec) _ h) arrivals

/-- The push starts after a number was drawn, or it draws one: an envelope of its batch is
routed. -/
def Draws (P : Platform) (cfg : Config) (db : PostgresDb) (now : ℤ) (caller : Caller)
    (body : List Envelope) : Prop :=
  db.recordSeq.isCalled = true ∨
    ∃ e ∈ body, ∃ accountId, Sync.route P cfg caller now db.toTables e = .ok accountId

/-- A number has been drawn after the loop exactly if one had been before it or the batch draws
one. -/
theorem isCalled_iff {st' : Sync.PushState} {db' : PostgresDb}
    (h : Program.run (PostgresStore.exec P textGt now) (Sync.pushAll cfg caller now body .initial)
      db = (.ok st', db')) :
    db'.recordSeq.isCalled = true ↔ Draws P cfg db now caller body := by
  have hrun : Program.run ((postgres P textGt).exec now)
      (Sync.pushAll cfg caller now body .initial) db = (.ok st', db') := h
  have hloop := loop_induction lawful_postgres
    (I := fun done _ db' => (PostgresDb.toTables db').shares = db.shares ∧
      (RecordSeq.isCalled (PostgresDb.recordSeq db') = true ↔ db.recordSeq.isCalled = true ∨
        ∃ e ∈ done, ∃ accountId, Sync.route P cfg caller now db.toTables e = .ok accountId))
    ?_ ⟨rfl, by simp⟩ hrun
  · exact hloop.2
  · rintro done e rep rep' (s₁ : PostgresDb) (s₂ : PostgresDb) ⟨hshares, hiff⟩ hhandled
    have hshares' : s₂.shares = s₁.shares := hhandled.shares lawful_postgres
    refine ⟨hshares'.trans hshares, ?_⟩
    rcases hhandled.refused_or_put with ⟨reason, hroute, hsame⟩ | ⟨accountId, answer, hroute, hput⟩
    · have hroute : Sync.route P cfg caller now s₁.toTables e = .error reason := hroute
      obtain rfl : s₂ = s₁ := hsame
      rw [Sync.route_congr hshares] at hroute
      simp only [hiff, List.mem_append, List.mem_singleton, or_and_right, exists_or,
        exists_eq_left, hroute, reduceCtorEq, exists_false, or_false]
    · have hroute : Sync.route P cfg caller now s₁.toTables e = .ok accountId := hroute
      have hput : PostgresStore.putEnvelope P textGt accountId e s₁ = (.ok answer, s₂) := hput
      rw [Sync.route_congr hshares] at hroute
      have hseq : (PostgresStore.putEnvelope P textGt accountId e s₁).2.recordSeq =
          s₁.recordSeq.nextval.2 := recordSeq_putEnvelope
      rw [hput] at hseq
      refine iff_of_true ?_ (Or.inr ⟨e, by simp, accountId, hroute⟩)
      rw [hseq]
      rfl

theorem lastDrawn_of_called (h : db.recordSeq.isCalled = true) :
    db.recordSeq.lastValue = lastDrawn db := by
  rw [lastDrawn, RecordSeq.peek, if_pos h]
  omega

/-- Once a number has been drawn the cursor is the last one. -/
theorem neverAhead_of_draws (hdraws : Draws P cfg db now caller body)
    (h : ((postgres P textGt).push cfg db now caller body).1 = .ok resp) :
    (postgres P textGt).NeverAhead P cfg db now caller body resp := by
  obtain ⟨st, s', hloop, _, _, hmark, hpushed⟩ := exists_loop_of_push h
  apply neverAhead_of_drawn lawful_postgres h
  have hcalled := (isCalled_iff hloop).mpr hdraws
  rw [hpushed]
  exact (Except.ok.inj hmark).symm.trans (lastDrawn_of_called hcalled)

theorem loop_of_refused {st' : Sync.PushState} {db' : PostgresDb}
    (hrefused : ∀ e ∈ body, ∀ accountId,
      Sync.route P cfg caller now db.toTables e ≠ .ok accountId)
    (h : Program.run (PostgresStore.exec P textGt now) (Sync.pushAll cfg caller now body .initial)
      db = (.ok st', db')) : db' = db := by
  have hrun : Program.run ((postgres P textGt).exec now)
      (Sync.pushAll cfg caller now body .initial) db = (.ok st', db') := h
  have hloop := loop_induction lawful_postgres
    (I := fun done _ db' => (∀ e ∈ done, ∀ accountId,
      Sync.route P cfg caller now db.toTables e ≠ .ok accountId) → db' = db)
    ?_ (fun _ => rfl) hrun
  · exact hloop hrefused
  · rintro done e rep rep' (s₁ : PostgresDb) (s₂ : PostgresDb) hsame hhandled hdone
    obtain rfl := hsame (fun e he => hdone e (List.mem_append_left _ he))
    rcases hhandled.refused_or_put with ⟨_, _, hunchanged⟩ | ⟨accountId, _, hroute, _⟩
    · exact hunchanged
    · exact absurd hroute (hdone e (by simp) accountId)

theorem push_of_not_draws (hdraws : ¬ Draws P cfg db now caller body)
    (h : ((postgres P textGt).push cfg db now caller body).1 = .ok resp) :
    ((postgres P textGt).push cfg db now caller body).2 = db ∧
      resp.cursor = db.recordSeq.lastValue := by
  obtain ⟨st, s', hloop, _, _, hmark, hpushed⟩ := exists_loop_of_push h
  have hsame : s' = db := by
    apply loop_of_refused _ hloop
    intro e he accountId hroute
    exact hdraws (Or.inr ⟨e, he, accountId, hroute⟩)
  rw [hsame] at hmark hpushed
  exact ⟨hpushed, (Except.ok.inj hmark).symm⟩

def NulFreeIds (db : PostgresDb) : Prop := ∀ a ∈ db.accounts.rows, '\x00' ∉ a.id.toList

theorem nulFreeIds_exec {c : Call} (h : NulFreeIds db) :
    NulFreeIds (PostgresStore.exec P textGt now c db).2 := by
  by_cases hfree : c.NulFree P
  swap
  · rwa [PostgresStore.exec_of_not_nulFree hfree]
  rw [PostgresStore.exec_of_nulFree hfree]
  cases c with
  | createAccount id new =>
    have hid : '\x00' ∉ id.toList := hfree id List.mem_cons_self
    change ∀ a ∈ (db.toTables.createAccount P PostgresStore.emailEq id new).2.accounts.rows, _
    by_cases hnew : db.toTables.Free P PostgresStore.emailEq id new.email
    · rw [Tables.createAccount_of_free hnew]
      intro a ha
      rw [Tables.rows_of_free hnew, List.mem_append, List.mem_singleton] at ha
      rcases ha with ha | rfl
      · exact h a ha
      · exact hid
    · rw [Tables.createAccount_of_not_free hnew]
      exact h
  | rewrapAccount id new =>
    intro a ha
    obtain ⟨old, hold, rfl⟩ := Tables.mem_rewrapAccount.mp ha
    split_ifs <;> exact h old hold
  | putToken hash id kind expiresAt =>
    obtain ⟨tokens, hframe⟩ := Tables.putToken_frame (t := db.toTables) hash id kind expiresAt
    simp only [PostgresStore.execute, PostgresDb.onTables, hframe]
    exact h
  | putShare ownerId groupId userId wrapped =>
    obtain ⟨shares, hframe⟩ :=
      Tables.putShare_frame (t := db.toTables) now ownerId groupId userId wrapped
    simp only [PostgresStore.execute, PostgresDb.onTables, hframe]
    exact h
  | touchDevice id deviceId name =>
    obtain ⟨devices, hframe⟩ := Tables.touchDevice_frame (t := db.toTables) now id deviceId name
    simp only [PostgresStore.execute, PostgresDb.onTables, hframe]
    exact h
  | putEnvelope accountId e =>
    change NulFreeIds (PostgresStore.putEnvelope P textGt accountId e db).2
    by_cases hfile : db.toTables.Fileable (P.recordEntry accountId e db.recordSeq.peek)
    · rwa [PostgresStore.putEnvelope_of_fileable hfile]
    · rwa [PostgresStore.putEnvelope_of_not_fileable hfile]
  | _ => exact h

theorem nulFreeIds_reached (arrivals : List Arrival) :
    NulFreeIds ((postgres P textGt).reached P cfg arrivals) :=
  History.run_invariant (fun _ h => absurd h List.not_mem_nil)
    (fun _ _ h => Program.run_invariant (fun _ _ => nulFreeIds_exec) _ h) arrivals

def probe : Envelope where
  id := ""
  kind := .host
  keyRef := .personal
  groupId := none
  parentId := none
  sort := 0
  updatedAt := 0
  deviceId := ""
  deletedAt := none
  nonce := []
  ciphertext := []
  seq := 0

theorem putEnvelope_probe (hstart : db.recordSeq = .start) (hrows : db.records.rows = [])
    (haccount : db.accountById caller.accountId ≠ none) :
    (PostgresStore.putEnvelope P textGt caller.accountId probe db).1 =
      .ok (some RecordSeq.start.peek) := by
  have hfile : db.toTables.Fileable (P.recordEntry caller.accountId probe db.recordSeq.peek) :=
    fun h => haccount h.2
  have hreplaces : db.replaces textGt (P.recordEntry caller.accountId probe db.recordSeq.peek) =
      true := by
    have hnone : db.records.find? (P.recordEntry caller.accountId probe db.recordSeq.peek).key =
        none := KeyedTable.find?_eq_none.mpr (by simp [hrows])
    rw [Tables.replaces, hnone]
    rfl
  have hput : PostgresStore.putEnvelope P textGt caller.accountId probe db = _ :=
    PostgresStore.putEnvelope_of_fileable hfile
  rw [hreplaces, if_pos rfl, hstart] at hput
  rw [hput]

theorem nulFree_probe {accountId : String} (hids : NulFreeIds db)
    (haccount : db.accountById accountId ≠ none) :
    (Call.putEnvelope accountId probe).NulFree P := by
  obtain ⟨account, hfound⟩ := Option.ne_none_iff_exists'.mp haccount
  obtain ⟨hmem, rfl⟩ := KeyedTable.find?_eq_some.mp hfound
  intro s hs
  rcases List.mem_cons.mp hs with rfl | hs
  · exact hids account hmem
  · obtain rfl : s = "" := by simpa [probe] using hs
    exact List.not_mem_nil

theorem pushAll_probe (hfree : (Call.putEnvelope caller.accountId probe).NulFree P)
    (hput : (PostgresStore.putEnvelope P textGt caller.accountId probe db).1 =
      .ok (some RecordSeq.start.peek)) :
    Program.run (PostgresStore.exec P textGt 0) (Sync.pushAll cfg caller 0 [probe] .initial) db =
      (.ok { Sync.PushState.initial with report := ⟨[⟨"", "host", 1⟩], []⟩ },
        (PostgresStore.putEnvelope P textGt caller.accountId probe db).2) := by
  have hrefuse : Sync.refuse cfg probe 0 = none := by
    simp [Sync.refuse, probe, clockIsPlausible, maxClockSkewMs]
  have hone : Program.run (PostgresStore.exec P textGt 0)
      (Sync.pushOne cfg caller 0 probe .initial) db =
      (.ok { Sync.PushState.initial with report := ⟨[⟨"", "host", 1⟩], []⟩ },
        (PostgresStore.putEnvelope P textGt caller.accountId probe db).2) := by
    rw [Sync.pushOne, hrefuse]
    change Program.run _ (Sync.store caller.accountId probe .initial) db = _
    have hanswer : PostgresStore.exec P textGt 0 (.putEnvelope caller.accountId probe) db =
        (.ok (some RecordSeq.start.peek),
          (PostgresStore.putEnvelope P textGt caller.accountId probe db).2) :=
      (PostgresStore.exec_of_nulFree hfree).trans (Prod.ext hput rfl)
    rw [Sync.store, Program.run_bind, run_ask, hanswer]
    rfl
  rw [Sync.pushAll, Program.run_bind_ok _ hone]
  rfl

theorem push_probe (hids : NulFreeIds db) (hstart : db.recordSeq = .start)
    (hrows : db.records.rows = []) (haccount : db.accountById caller.accountId ≠ none) :
    ((postgres P textGt).push cfg db 0 caller [probe]).1 = .ok ⟨[⟨"", "host", 1⟩], [], 1⟩ := by
  have hput : (PostgresStore.putEnvelope P textGt caller.accountId probe db).1 =
      .ok (some RecordSeq.start.peek) := putEnvelope_probe hstart hrows haccount
  have hall : Program.run (PostgresStore.exec P textGt 0)
      (Sync.pushAll cfg caller 0 [probe] .initial) db = _ :=
    pushAll_probe (nulFree_probe hids haccount) hput
  have hmark :
      (PostgresStore.putEnvelope P textGt caller.accountId probe db).2.recordSeq.lastValue = 1 := by
    rw [recordSeq_putEnvelope, hstart]
    rfl
  change (Program.run (PostgresStore.exec P textGt 0) (Sync.push cfg caller 0 [probe]) db).1 = _
  rw [Sync.push, Program.run_bind_ok _ hall, Program.run_bind, run_ask]
  exact congrArg (fun cursor => Except.ok (⟨[⟨"", "host", 1⟩], [], cursor⟩ : PushResponse)) hmark

theorem not_neverAhead (hunused : Unused db) (hids : NulFreeIds db)
    (haccount : db.accountById caller.accountId ≠ none)
    (hdraws : ¬ Draws P cfg db now caller body)
    (h : ((postgres P textGt).push cfg db now caller body).1 = .ok resp) :
    ¬ (postgres P textGt).NeverAhead P cfg db now caller body resp := by
  intro hnever
  obtain ⟨hsame, hcursor⟩ := push_of_not_draws hdraws h
  obtain ⟨hstart, hrows⟩ := hunused (Bool.not_eq_true _ ▸ fun hcalled => hdraws (Or.inl hcalled))
  have hprobe : ((postgres P textGt).push cfg db 0 caller [probe]).1 =
      .ok ⟨[⟨"", "host", 1⟩], [], 1⟩ := push_probe hids hstart hrows haccount
  rw [← hsame] at hprobe
  have hlater := hnever.later [] 0 caller [probe] _ hprobe ⟨"", "host", 1⟩ (by simp)
  rw [hcursor, hstart] at hlater
  exact absurd hlater (lt_irrefl _)

end Postgres

/-- What the two backends promise of the cursors that pushes answer, in any run. -/
structure CursorsNeverAhead (P : Platform) (textGt : String → String → Bool) (cfg : Config) :
    Prop where
  onSqlite : ∀ arrivals now caller body resp,
    ((sqlite P).push cfg ((sqlite P).reached P cfg arrivals) now caller body).1 = .ok resp →
      (sqlite P).NeverAhead P cfg ((sqlite P).reached P cfg arrivals) now caller body resp
  onPostgres : ∀ arrivals now caller body resp (db : PostgresDb),
    db = (postgres P textGt).reached P cfg arrivals →
      ((postgres P textGt).push cfg db now caller body).1 = .ok resp →
        Draws P cfg db now caller body →
          (postgres P textGt).NeverAhead P cfg db now caller body resp
  onPostgres_only : ∀ arrivals now caller body resp (db : PostgresDb),
    db = (postgres P textGt).reached P cfg arrivals → db.accountById caller.accountId ≠ none →
      ((postgres P textGt).push cfg db now caller body).1 = .ok resp →
        (postgres P textGt).NeverAhead P cfg db now caller body resp →
          Draws P cfg db now caller body

theorem cursorsNeverAhead (P : Platform) (textGt : String → String → Bool) (cfg : Config) :
    CursorsNeverAhead P textGt cfg where
  onSqlite arrivals now caller body resp h := by
    apply neverAhead_of_drawn lawful_sqlite h
    obtain ⟨st, s', _, _, _, hmark, hpushed⟩ := exists_loop_of_push h
    rw [hpushed]
    exact (Except.ok.inj hmark).symm
  onPostgres arrivals now caller body resp db _ h hdraws := neverAhead_of_draws hdraws h
  onPostgres_only arrivals now caller body resp db hdb haccount h hnever := by
    by_contra hdraws
    have hunused : Unused db := by
      rw [hdb]
      exact unused_reached arrivals
    have hids : NulFreeIds db := by
      rw [hdb]
      exact nulFreeIds_reached arrivals
    exact not_neverAhead hunused hids haccount hdraws h hnever

section Runs

open Reference

/-- A push to a new Postgres database of a record whose clock is days ahead. -/
theorem first_cursor_runs_ahead :
    ¬ ∀ (P : Platform) (textGt : String → String → Bool) (cfg : Config) (arrivals : List Arrival)
      (now : ℤ) (caller : Caller) (body : List Envelope) (resp : PushResponse),
      ((postgres P textGt).push cfg ((postgres P textGt).reached P cfg arrivals) now caller
        body).1 = .ok resp →
        (postgres P textGt).NeverAhead P cfg ((postgres P textGt).reached P cfg arrivals) now
          caller body resp := by
  intro h
  have hnever := h .reference SqliteStore.textGt config [registration "ada"] 0 ⟨"ada"⟩
    [host "early" .personal none (3 * maxClockSkewMs)]
    ⟨[], [⟨"early", "host", .implausibleClock⟩], 1⟩ (by decide +kernel)
  have hlater := hnever.later [] 0 ⟨"ada"⟩ [host "h" .personal none 0] ⟨[⟨"h", "host", 1⟩], [], 1⟩
    (by decide +kernel) ⟨"h", "host", 1⟩ (by simp)
  exact absurd hlater (by decide)

end Runs

end Backend
end RemotierSync
