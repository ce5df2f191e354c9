import RemotierSync.Sync

/-!
# A client that follows its cursor

A client keeps the cursor it sends next and everything it has received. Accepting a page keeps
it orderly: the numbers it received increase and end at its cursor. Whether it is caught up with
a set of rows is a separate question, since the set may grow behind the cursor; a page preserves
it, and a page that leaves nothing turns it into completeness. All this is about pages of some
rows, whatever backend they come from; a `Reader` is a client with the store that answers it.
-/

namespace RemotierSync

structure Client where
  cursor : ℤ
  received : List Envelope

namespace Client

open ChangeLog Sync

def start : Client := ⟨0, []⟩

def accept (c : Client) (resp : PullResponse) : Client :=
  ⟨resp.cursor, c.received ++ resp.envelopes⟩

/-- The client has received the version that the row holds, under the number it holds. -/
def Received (P : Platform) (c : Client) (r : RecordEntry) : Prop :=
  ∃ e ∈ c.received, P.envelopeFromRow r = .ok e

instance (P : Platform) (c : Client) (r : RecordEntry) : Decidable (Received P c r) :=
  inferInstanceAs (Decidable (∃ e ∈ c.received, P.envelopeFromRow r = .ok e))

/-- The client has received increasing numbers up to its cursor. -/
structure Orderly (c : Client) : Prop where
  received_le : ∀ e ∈ c.received, e.seq ≤ c.cursor
  increasing : (c.received.map Envelope.seq).Pairwise (· < ·)

/-- The client is caught up with the rows: those at or before its cursor it has received. -/
def CaughtUpWith (P : Platform) (rows : List RecordEntry) (c : Client) : Prop :=
  CaughtUp RecordEntry.seq rows c.cursor (Received P c)

variable {P : Platform} {cfg : Config} {c : Client} {resp : PullResponse}
  {rows seen : List RecordEntry} {r : RecordEntry}

theorem orderly_start : Orderly start where
  received_le := by simp [start]
  increasing := List.Pairwise.nil

theorem received_accept (h : Received P c r) : Received P (c.accept resp) r := by
  obtain ⟨e, he, hdec⟩ := h
  exact ⟨e, List.mem_append_left _ he, hdec⟩

theorem received_of_page (h : PageOf P cfg c.cursor (after RecordEntry.seq c.cursor seen) resp)
    (hr : r ∈ (after RecordEntry.seq c.cursor seen).take cfg.maxPage.toNat) :
    Received P (c.accept resp) r := by
  obtain ⟨e, he, hdec⟩ := exists_envelope_of_decodes h.decodes hr
  exact ⟨e, List.mem_append_right _ he, hdec⟩

theorem bounds_of_page (hd : Distinct RecordEntry.seq seen)
    (h : PageOf P cfg c.cursor (after RecordEntry.seq c.cursor seen) resp) :
    ∀ e ∈ resp.envelopes, c.cursor < e.seq ∧ e.seq ≤ resp.cursor := by
  intro e he
  obtain ⟨r, hr, hdec⟩ := exists_row_of_decodes h.decodes he
  have hafter : (after RecordEntry.seq c.cursor seen).Pairwise (fun r r' => r.seq < r'.seq) :=
    after_pairwise_lt hd
  have hlt := hafter.sublist (List.take_sublist cfg.maxPage.toNat _)
  rw [envelopeFromRow_seq hdec, h.cursor_eq]
  exact ⟨(mem_after.mp (List.mem_of_mem_take hr)).2, le_advance_of_mem hlt hr⟩

theorem cursor_le_of_page
    (h : PageOf P cfg c.cursor (after RecordEntry.seq c.cursor seen) resp) :
    c.cursor ≤ resp.cursor := by
  rw [h.cursor_eq]
  exact le_advance (fun r hr => (mem_after.mp (List.mem_of_mem_take hr)).2)

theorem cursor_le_bound (h : PageOf P cfg c.cursor (after RecordEntry.seq c.cursor seen) resp)
    {bound : ℤ} (hcursor : c.cursor ≤ bound) (hrows : ∀ r ∈ seen, r.seq ≤ bound) :
    resp.cursor ≤ bound := by
  rw [h.cursor_eq, advance]
  cases hlast : ((after RecordEntry.seq c.cursor seen).take cfg.maxPage.toNat).getLast? with
  | none => exact hcursor
  | some last =>
    exact hrows last (mem_after.mp (List.mem_of_mem_take (List.mem_of_getLast? hlast))).1

theorem orderly_accept (hc : Orderly c) (hd : Distinct RecordEntry.seq seen)
    (h : PageOf P cfg c.cursor (after RecordEntry.seq c.cursor seen) resp) :
    Orderly (c.accept resp) := by
  have hbounds := bounds_of_page hd h
  refine ⟨?_, ?_⟩
  · intro e he
    rcases List.mem_append.mp he with he | he
    · exact (hc.received_le e he).trans (cursor_le_of_page h)
    · exact (hbounds e he).2
  · unfold accept
    rw [List.map_append, List.pairwise_append]
    refine ⟨hc.increasing, ?_, ?_⟩
    · rw [map_seq_of_decodes h.decodes]
      exact List.pairwise_map.mpr ((after_pairwise_lt hd).sublist (List.take_sublist _ _))
    · intro x hx y hy
      obtain ⟨e, he, rfl⟩ := List.mem_map.mp hx
      obtain ⟨e', he', rfl⟩ := List.mem_map.mp hy
      exact (hc.received_le e he).trans_lt (hbounds e' he').1

/-- A page of rows keeps the client caught up with any of these rows. -/
theorem caughtUp_accept (hd : Distinct RecordEntry.seq seen) (hsub : rows ⊆ seen)
    (hc : CaughtUpWith P rows c)
    (h : PageOf P cfg c.cursor (after RecordEntry.seq c.cursor seen) resp) :
    CaughtUpWith P rows (c.accept resp) := by
  have hnext : (c.accept resp).cursor = resp.cursor := rfl
  rw [CaughtUpWith, hnext, h.cursor_eq]
  exact hc.of_page hd (fun r hr => hsub hr) (fun r => received_accept)
    (fun r hr => received_of_page h hr)

/-- A page that leaves nothing completes a client that was caught up. -/
theorem complete_of_drained (hsub : rows ⊆ seen) (hc : CaughtUpWith P rows c)
    (h : PageOf P cfg c.cursor (after RecordEntry.seq c.cursor seen) resp)
    (hmore : resp.more = false) : ∀ r ∈ rows, Received P (c.accept resp) r :=
  hc.drained (fun _ hr => hsub hr) (fun _ => received_accept) (fun _ hr => received_of_page h hr)
    (h.length_le hmore)

end Client

/-- A store, and a client that pulls from it. -/
structure Reader (σ : Type) extends Client where
  db : σ

namespace Reader

open ChangeLog Sync Client

variable {σ : Type} (exec : (c : Call) → σ → Except Error c.Ret × σ) (cfg : Config)
  (caller : Caller)

def answer (s : Reader σ) : Except Error PullResponse :=
  (Program.run exec (Sync.pull cfg caller s.cursor) s.db).1

def pull (s : Reader σ) : Reader σ :=
  match Program.run exec (Sync.pull cfg caller s.cursor) s.db with
  | (.ok resp, db) => { s.toClient.accept resp with db := db }
  | (.error _, db) => { s with db := db }

def seen (t : Tables) : List RecordEntry := t.records.rows.filter (t.visible caller.accountId)

variable {exec} {cfg} {caller} {P : Platform} {tables : σ → Tables} {s : Reader σ}
  {resp : PullResponse} (hlog : ReadsLog P exec tables)

include hlog

theorem pull_of_ok (h : s.answer exec cfg caller = .ok resp) :
    s.pull exec cfg caller = { s.toClient.accept resp with db := s.db } := by
  have hrun : Program.run exec (Sync.pull cfg caller s.cursor) s.db = (.ok resp, s.db) :=
    Prod.ext h (run_pull hlog).1
  simp only [pull, hrun]

theorem pull_of_error {err : Error} (h : s.answer exec cfg caller = .error err) :
    s.pull exec cfg caller = s := by
  have hrun : Program.run exec (Sync.pull cfg caller s.cursor) s.db = (.error err, s.db) :=
    Prod.ext h (run_pull hlog).1
  simp only [pull, hrun]

theorem pageOf_answer (h : s.answer exec cfg caller = .ok resp) :
    PageOf P cfg s.cursor (after RecordEntry.seq s.cursor (seen caller (tables s.db))) resp :=
  (run_pull hlog).2 resp h

end Reader
end RemotierSync
