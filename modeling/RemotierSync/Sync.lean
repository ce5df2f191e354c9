import RemotierSync.Sqlite
import Mathlib.Data.List.Forall2

/-!
# Pull and push

The two handlers as programs of store calls. `pull` asks for one row more than a page holds and
moves the cursor to the last row it returns. `push` files each envelope of a batch on its own:
an envelope is refused, or rejected as from an outsider, or handed to the store under the
account that the group's shares name as owner. The answers about groups are asked once for a
batch.

`run_pull` states, for any store, what an answered pull has to do with the rows the store found.
-/

namespace RemotierSync.Sync

variable (cfg : Config)

def pull (caller : Caller) (cursor : ℤ) : Handler PullResponse := do
  let limit := cfg.maxPage
  let envelopes ← ask (.pull caller.accountId cursor (limit + 1))
  let more : Bool := (envelopes.length : ℤ) > limit
  let envelopes := if more then envelopes.take limit.toNat else envelopes
  return {
    envelopes := envelopes
    cursor := (envelopes.getLast?.map Envelope.seq).getD cursor
    more := more }

def refuse (e : Envelope) (now : ℤ) : Option RejectReason :=
  if !clockIsPlausible e.updatedAt now then some .implausibleClock
  else if e.ciphertext.length > cfg.maxRecordBytes then some .tooLarge
  else none

structure Report where
  accepted : List Accepted
  rejected : List Rejected
deriving DecidableEq, Repr

def Report.accept (rep : Report) (e : Envelope) (seq : ℤ) : Report :=
  { rep with accepted := rep.accepted ++ [⟨e.id, e.kind.asStr, seq⟩] }

def Report.reject (rep : Report) (e : Envelope) (reason : RejectReason) : Report :=
  { rep with rejected := rep.rejected ++ [⟨e.id, e.kind.asStr, reason⟩] }

structure PushState where
  report : Report
  writable : List (String × Bool)
  owners : List (String × Option String)

def PushState.initial : PushState := ⟨⟨[], []⟩, [], []⟩

/-- A question about a group, unless the batch has asked it before. -/
def askOnce {β : Type} (known : List (String × β)) (groupId : String) (question : Handler β) :
    Handler (β × List (String × β)) :=
  match known.lookup groupId with
  | some answer => return (answer, known)
  | none => do
    let answer ← question
    return (answer, (groupId, answer) :: known)

def store (storageAccount : String) (e : Envelope) (st : PushState) : Handler PushState := do
  match ← ask (.putEnvelope storageAccount e) with
  | some seq => return { st with report := st.report.accept e seq }
  | none => return { st with report := st.report.reject e .stale }

def pushOne (caller : Caller) (now : ℤ) (e : Envelope) (st : PushState) : Handler PushState :=
  match refuse cfg e now with
  | some reason => return { st with report := st.report.reject e reason }
  | none =>
    match e.keyRef with
    | .personal => store caller.accountId e st
    | .group groupId => do
      let (allowed, writable) ←
        askOnce st.writable groupId (ask (.canWriteGroup caller.accountId groupId))
      if allowed then do
        let (owner, owners) ← askOnce st.owners groupId (ask (.shareOwner groupId))
        store (owner.getD caller.accountId) e { st with writable := writable, owners := owners }
      else return { st with writable := writable, report := st.report.reject e .notAMember }

def pushAll (caller : Caller) (now : ℤ) : List Envelope → PushState → Handler PushState
  | [], st => return st
  | e :: rest, st => do
    let st ← pushOne cfg caller now e st
    pushAll caller now rest st

def push (caller : Caller) (now : ℤ) (body : List Envelope) : Handler PushResponse := do
  let st ← pushAll cfg caller now body .initial
  let cursor ← ask (.maxSeq caller.accountId)
  return { accepted := st.report.accepted, rejected := st.report.rejected, cursor := cursor }

/-! ## What a pull answers -/

theorem forall₂_of_mapM_eq_ok {α β ε : Type} {f : α → Except ε β} {l : List α} {bs : List β}
    (h : l.mapM f = .ok bs) : List.Forall₂ (fun a b => f a = .ok b) l bs := by
  induction l generalizing bs with
  | nil =>
    obtain rfl : [] = bs := Except.ok.inj h
    exact .nil
  | cons a l ih =>
    rw [List.mapM_cons] at h
    cases ha : f a with
    | error e => simp [ha, bind, Except.bind] at h
    | ok b =>
      cases hl : l.mapM f with
      | error e => simp [ha, hl, bind, Except.bind] at h
      | ok bs' =>
        obtain rfl : b :: bs' = bs := by
          simpa [ha, hl, bind, Except.bind, pure, Except.pure] using h
        exact .cons ha (ih hl)

def Decodes (P : Platform) (r : RecordEntry) (e : Envelope) : Prop :=
  P.envelopeFromRow r = .ok e

theorem map_seq_of_decodes {P : Platform} {rows : List RecordEntry} {es : List Envelope}
    (h : List.Forall₂ (Decodes P) rows es) : es.map Envelope.seq = rows.map RecordEntry.seq := by
  induction h with
  | nil => rfl
  | cons hr _ ih => rw [List.map_cons, List.map_cons, ih, envelopeFromRow_seq hr]

theorem exists_row_of_decodes {P : Platform} {rows : List RecordEntry} {es : List Envelope}
    {e : Envelope} (h : List.Forall₂ (Decodes P) rows es) (he : e ∈ es) :
    ∃ r ∈ rows, Decodes P r e := by
  obtain ⟨i, hi, rfl⟩ := List.getElem_of_mem he
  have hi' : i < rows.length := by
    rw [h.length_eq]
    exact hi
  exact ⟨rows[i], List.getElem_mem hi', h.get hi' hi⟩

theorem exists_envelope_of_decodes {P : Platform} {rows : List RecordEntry} {es : List Envelope}
    {r : RecordEntry} (h : List.Forall₂ (Decodes P) rows es) (hr : r ∈ rows) :
    ∃ e ∈ es, Decodes P r e := by
  obtain ⟨i, hi, rfl⟩ := List.getElem_of_mem hr
  have hi' : i < es.length := by
    rw [← h.length_eq]
    exact hi
  exact ⟨es[i], List.getElem_mem hi', h.get hi hi'⟩

/-- The response holds the first page of the rows found behind the cursor, moves the cursor over
it, and says whether rows are left. -/
structure PageOf (P : Platform) (cfg : Config) (cursor : ℤ) (rows : List RecordEntry)
    (resp : PullResponse) : Prop where
  decodes : List.Forall₂ (Decodes P) (rows.take cfg.maxPage.toNat) resp.envelopes
  cursor_eq : resp.cursor = ChangeLog.advance RecordEntry.seq cursor (rows.take cfg.maxPage.toNat)
  more_iff : resp.more = true ↔ cfg.maxPage.toNat < rows.length

theorem PageOf.length_le {P : Platform} {cfg : Config} {cursor : ℤ} {rows : List RecordEntry}
    {resp : PullResponse} (h : PageOf P cfg cursor rows resp) (hmore : resp.more = false) :
    rows.length ≤ cfg.maxPage.toNat := by
  by_contra hlong
  rw [h.more_iff.mpr (not_le.mp hlong)] at hmore
  cases hmore

section Pull

variable {P : Platform} {cfg} {caller : Caller} {cursor : ℤ}

/-- A store whose `pull` decodes the rows it finds, or fails, and changes nothing. -/
def ReadsLog {σ : Type} (P : Platform) (exec : (c : Call) → σ → Except Error c.Ret × σ)
    (tables : σ → Tables) : Prop :=
  ∀ accountId cursor limit s, 0 ≤ limit → (exec (.pull accountId cursor limit) s).2 = s ∧
    ∀ es, (exec (.pull accountId cursor limit) s).1 = .ok es →
      (((tables s).pullRows accountId cursor).take limit.toNat).mapM P.envelopeFromRow = .ok es

/-- On such a store a pull answers with the first page of these rows and changes nothing. -/
theorem run_pull {σ : Type} {exec : (c : Call) → σ → Except Error c.Ret × σ}
    {tables : σ → Tables} (hlog : ReadsLog P exec tables) {s : σ} :
    (Program.run exec (pull cfg caller cursor) s).2 = s ∧
      ∀ resp, (Program.run exec (pull cfg caller cursor) s).1 = .ok resp →
        PageOf P cfg cursor ((tables s).pullRows caller.accountId cursor) resp := by
  have hpos := cfg.maxPage_pos
  have hsucc : (cfg.maxPage + 1).toNat = cfg.maxPage.toNat + 1 := by omega
  unfold pull
  rw [Program.run_bind, run_ask]
  obtain ⟨hsame, hrows⟩ := hlog caller.accountId cursor (cfg.maxPage + 1) s (by omega)
  rcases hexec : exec (.pull caller.accountId cursor (cfg.maxPage + 1)) s with ⟨err | es, s'⟩
  · rw [hexec] at hsame
    exact ⟨hsame, by simp⟩
  · rw [hexec] at hsame hrows
    refine ⟨hsame, ?_⟩
    intro resp h
    obtain rfl := Except.ok.inj h
    have hdec := forall₂_of_mapM_eq_ok (hrows es rfl)
    generalize (tables s).pullRows caller.accountId cursor = rows at hdec ⊢
    have hlen := hdec.length_eq
    rw [hsucc] at hdec hlen
    have hmore : ((es.length : ℤ) > cfg.maxPage) ↔ cfg.maxPage.toNat < rows.length := by
      rw [List.length_take] at hlen
      omega
    have hpage : List.Forall₂ (Decodes P) (rows.take cfg.maxPage.toNat)
        (es.take cfg.maxPage.toNat) := by
      have htake := List.forall₂_take cfg.maxPage.toNat hdec
      rwa [List.take_take, Nat.min_eq_left (Nat.le_succ _)] at htake
    have hes : (if (es.length : ℤ) > cfg.maxPage then es.take cfg.maxPage.toNat else es) =
        es.take cfg.maxPage.toNat := by
      split_ifs with hgt
      · rfl
      · exact (List.take_of_length_le (by omega)).symm
    have hcursor : ((es.take cfg.maxPage.toNat).getLast?.map Envelope.seq).getD cursor =
        ChangeLog.advance RecordEntry.seq cursor (rows.take cfg.maxPage.toNat) := by
      rw [ChangeLog.advance, ← List.getLast?_map, ← List.getLast?_map, map_seq_of_decodes hpage]
    simp only [decide_eq_true_eq, hes]
    exact ⟨hpage, hcursor, by simpa using hmore⟩

variable {now : ℤ} {db : SqliteDb}

theorem exec_pull {accountId : String} {limit : ℤ} (hlimit : 0 ≤ limit) :
    SqliteStore.exec P now (.pull accountId cursor limit) db =
      (((db.pullRows accountId cursor).take limit.toNat).mapM P.envelopeFromRow, db) := by
  simp only [SqliteStore.exec, SqliteStore.pull, if_neg (not_lt.mpr hlimit)]

theorem maxPage_succ_nonneg (cfg : Config) : 0 ≤ cfg.maxPage + 1 := by
  have := cfg.maxPage_pos
  omega

theorem readsLog : ReadsLog P (SqliteStore.exec P now) SqliteDb.toTables := by
  intro accountId cursor limit db hlimit
  rw [exec_pull hlimit]
  exact ⟨rfl, fun es h => h⟩

theorem run_pull_snd : (Program.run (SqliteStore.exec P now) (pull cfg caller cursor) db).2 = db :=
  (run_pull readsLog).1

theorem pageOf_of_pull {resp : PullResponse}
    (h : (Program.run (SqliteStore.exec P now) (pull cfg caller cursor) db).1 = .ok resp) :
    PageOf P cfg cursor (db.pullRows caller.accountId cursor) resp :=
  (run_pull readsLog).2 resp h

def Returns (P : Platform) (cfg : Config) (caller : Caller) (now cursor : ℤ) (db : SqliteDb)
    (r : RecordEntry) : Prop :=
  r ∈ db.records.rows ∧
    ∃ resp, (Program.run (SqliteStore.exec P now) (pull cfg caller cursor) db).1 = .ok resp ∧
      ∃ e ∈ resp.envelopes, Decodes P r e

theorem visible_of_returns (hd : ChangeLog.Distinct RecordEntry.seq db.records.rows)
    {r : RecordEntry} (h : Returns P cfg caller now cursor db r) :
    db.visible caller.accountId r = true := by
  obtain ⟨hr, resp, hresp, e, he, hdec⟩ := h
  obtain ⟨r', hr', hdec'⟩ := exists_row_of_decodes (pageOf_of_pull hresp).decodes he
  obtain ⟨⟨hrow, hvis⟩, _⟩ := Tables.mem_pullRows.mp (List.mem_of_mem_take hr')
  have hseq : r.seq = r'.seq := (envelopeFromRow_seq hdec).symm.trans (envelopeFromRow_seq hdec')
  rwa [hd.eq_of_pos_eq hr hrow hseq]

end Pull
end RemotierSync.Sync
