import RemotierSync.Client
import RemotierSync.Server

/-!
# A client of the SQLite server

The state is the server's database with one client that follows its cursor. Requests of any
accounts change the database; a pull of the client is answered from it. `Sound` holds in every
run: the client is orderly, and its cursor has not passed the counter, so that whatever a request
adds to the log lands behind the cursor (`caughtUp_request`).
-/

namespace RemotierSync

abbrev Follower := Reader SqliteDb

namespace Follower

open SqliteStore Server ChangeLog Client Reader

inductive Event where
  | request (a : Arrival)
  | pull (now : ℤ)
deriving DecidableEq

def Event.creates : Event → Option (Caller × ShareRequest)
  | .request a => a.creates
  | .pull _ => none

def start : Follower := { Client.start with db := .migrated }

variable (P : Platform) (cfg : Config) (caller : Caller)

def answer (now : ℤ) (s : Follower) : Except Error PullResponse :=
  Reader.answer (exec P now) cfg caller s

def step (s : Follower) : Event → Follower
  | .request a => { s with db := serve P cfg s.db a }
  | .pull now => Reader.pull (exec P now) cfg caller s

def follow (events : List Event) : Follower := History.run (step P cfg caller) start events

/-- The client is orderly and its cursor has not passed the counter. -/
structure Sound (s : Follower) : Prop where
  wellFormed : WellFormed s.db
  orderly : Orderly s.toClient
  cursor_le : s.cursor ≤ s.db.next

variable {P} {cfg} {caller} {s : Follower} {now : ℤ} {resp : PullResponse}
  {p p' : RecordEntry → Bool}

theorem step_pull_of_ok (h : answer P cfg caller now s = .ok resp) :
    step P cfg caller s (.pull now) = { s.toClient.accept resp with db := s.db } :=
  pull_of_ok Sync.readsLog h

theorem step_pull_of_error {err : Error} (h : answer P cfg caller now s = .error err) :
    step P cfg caller s (.pull now) = s :=
  pull_of_error Sync.readsLog h

theorem pageOf_answer (h : answer P cfg caller now s = .ok resp) :
    Sync.PageOf P cfg s.cursor (after RecordEntry.seq s.cursor (seen caller s.db.toTables)) resp :=
  Reader.pageOf_answer Sync.readsLog h

theorem distinct_seen (hs : Sound s) : Distinct RecordEntry.seq (seen caller s.db.toTables) :=
  hs.wellFormed.distinct.filter _

theorem sound_start : Sound start where
  wellFormed := wellFormed_migrated
  orderly := orderly_start
  cursor_le := le_rfl

theorem sound_request (hs : Sound s) (a : Arrival) : Sound (step P cfg caller s (.request a)) where
  wellFormed := wellFormed_serve hs.wellFormed
  orderly := hs.orderly
  cursor_le := hs.cursor_le.trans grows_serve.1

theorem sound_pull (hs : Sound s) (now : ℤ) : Sound (step P cfg caller s (.pull now)) := by
  cases ha : answer P cfg caller now s with
  | error err => rwa [step_pull_of_error ha]
  | ok resp =>
    rw [step_pull_of_ok ha]
    refine ⟨hs.wellFormed, orderly_accept hs.orderly (distinct_seen hs) (pageOf_answer ha), ?_⟩
    apply cursor_le_bound (pageOf_answer ha) hs.cursor_le
    exact fun r hr => hs.wellFormed.seq_le r (List.mem_of_mem_filter hr)

theorem sound_step (hs : Sound s) (ev : Event) : Sound (step P cfg caller s ev) := by
  cases ev with
  | request a => exact sound_request hs a
  | pull now => exact sound_pull hs now

theorem sound_follow (events : List Event) : Sound (follow P cfg caller events) :=
  History.run_invariant sound_start (fun _ ev hs => sound_step hs ev) events

/-- Requests keep the client caught up if every row that enters the set at or before the cursor
has been received. -/
theorem caughtUp_request (hs : Sound s) {a : Arrival}
    (hc : CaughtUpWith P (s.db.records.rows.filter p) s.toClient)
    (hold : ∀ r ∈ s.db.records.rows, r ∈ (serve P cfg s.db a).records.rows → p' r = true →
      r.seq ≤ s.cursor → p r = true ∨ Received P s.toClient r) :
    CaughtUpWith P ((serve P cfg s.db a).records.rows.filter p') s.toClient := by
  intro r hr hle
  obtain ⟨hmem, hp'⟩ := List.mem_filter.mp hr
  rcases grows_serve.2 r hmem with hrow | hnew
  · rcases hold r hrow hmem hp' hle with hp | hrec
    · exact hc r (List.mem_filter.mpr ⟨hrow, hp⟩) hle
    · exact hrec
  · have := hs.cursor_le
    omega

end Follower
end RemotierSync
