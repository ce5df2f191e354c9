import RemotierSync.Push
import RemotierSync.Shares
import RemotierSync.Auth
import RemotierSync.Library.History

/-!
# Runs of the server

A run is a list of requests, each with the time at which it arrives, served one after the other
from a freshly migrated database. Callers are arbitrary account ids, so that every caller the
token check can produce is covered. `serve_frame` says which requests can change what, and
`wellFormed_reached` that every state a run reaches is well formed.
-/

namespace RemotierSync

inductive Request where
  | register (admitted : Bool) (newId : String) (salts : Auth.Salts) (minted : Auth.Minted)
      (body : RegisterRequest)
  | login (admitted : Bool) (minted : Auth.Minted) (body : LoginRequest)
  | refresh (minted : Auth.Minted) (refreshToken : String)
  | recover (admitted : Bool) (minted : Auth.Minted) (body : RecoverRequest)
  | rewrap (salts : Auth.Salts) (caller : Caller) (body : RewrapRequest)
  | logout (caller : Caller)
  | push (caller : Caller) (body : List Envelope)
  | pull (caller : Caller) (cursor : ℤ)
  | createShare (caller : Caller) (body : ShareRequest)
  | removeShare (caller : Caller) (groupId userId : String)
deriving DecidableEq

structure Arrival where
  now : ℤ
  request : Request
deriving DecidableEq

namespace Arrival

def pushes (a : Arrival) : Option (Caller × List Envelope) :=
  match a.request with
  | .push caller body => some (caller, body)
  | _ => none

def creates (a : Arrival) : Option (Caller × ShareRequest) :=
  match a.request with
  | .createShare caller body => some (caller, body)
  | _ => none

def removes (a : Arrival) : Option (Caller × String × String) :=
  match a.request with
  | .removeShare caller groupId userId => some (caller, groupId, userId)
  | _ => none

variable {a : Arrival} {caller : Caller} {groupId userId : String}

theorem pushes_eq_some {body : List Envelope} :
    a.pushes = some (caller, body) ↔ a.request = .push caller body := by
  obtain ⟨now, request⟩ := a
  cases request <;> simp [pushes]

theorem creates_eq_some {body : ShareRequest} :
    a.creates = some (caller, body) ↔ a.request = .createShare caller body := by
  obtain ⟨now, request⟩ := a
  cases request <;> simp [creates]

theorem removes_eq_some :
    a.removes = some (caller, groupId, userId) ↔
      a.request = .removeShare caller groupId userId := by
  obtain ⟨now, request⟩ := a
  cases request <;> simp [removes]

end Arrival

namespace Server

open SqliteStore

variable (P : Platform) (cfg : Config)

def act (a : Arrival) : Handler Unit :=
  match a.request with
  | .register admitted newId salts minted body =>
    Program.discard (Auth.register P cfg a.now admitted newId salts minted body)
  | .login admitted minted body => Program.discard (Auth.login P cfg a.now admitted minted body)
  | .refresh minted refreshToken => Program.discard (Auth.refresh P cfg a.now minted refreshToken)
  | .recover admitted minted body => Program.discard (Auth.recover P cfg a.now admitted minted body)
  | .rewrap salts caller body => Auth.rewrap P salts caller body
  | .logout caller => Auth.logout caller
  | .push caller body => Program.discard (Sync.push cfg caller a.now body)
  | .pull caller cursor => Program.discard (Sync.pull cfg caller cursor)
  | .createShare caller body => Shares.create caller body
  | .removeShare caller groupId userId => Shares.remove caller groupId userId

def serve (db : SqliteDb) (a : Arrival) : SqliteDb :=
  (Program.run (exec P a.now) (act P cfg a) db).2

def reached (arrivals : List Arrival) : SqliteDb := History.run (serve P cfg) .migrated arrivals

variable {P} {cfg} {db : SqliteDb} {a : Arrival} {arrivals : List Arrival}

theorem wellFormed_serve (h : WellFormed db) : WellFormed (serve P cfg db a) := wellFormed_run _ h

theorem grows_serve : Grows db (serve P cfg db a) := grows_run _

theorem grows_serves (db : SqliteDb) (arrivals : List Arrival) :
    Grows db (History.run (serve P cfg) db arrivals) :=
  History.run_invariant (.refl db) (fun _ _ h => h.trans grows_serve) arrivals

theorem wellFormed_reached (arrivals : List Arrival) : WellFormed (reached P cfg arrivals) :=
  History.run_invariant wellFormed_migrated (fun _ _ => wellFormed_serve) arrivals

@[simp] theorem reached_snoc :
    reached P cfg (arrivals ++ [a]) = serve P cfg (reached P cfg arrivals) a :=
  History.run_snoc _ _ _ _

theorem reached_append_cons (later : List Arrival) : reached P cfg (arrivals ++ a :: later) =
    History.run (serve P cfg) (reached P cfg (arrivals ++ [a])) later := by
  unfold reached
  rw [← History.run_append, List.append_assoc, List.singleton_append]

/-! ## Which request changes what -/

theorem serve_push {caller : Caller} {body : List Envelope} (h : a.pushes = some (caller, body)) :
    serve P cfg db a = Sync.afterPush P cfg caller a.now body db := by
  unfold serve act
  rw [Arrival.pushes_eq_some.mp h]
  exact Program.run_discard_snd _ _ _

theorem serve_create {caller : Caller} {body : ShareRequest}
    (h : a.creates = some (caller, body)) :
    serve P cfg db a = (Shares.runCreate P a.now caller body db).2 := by
  unfold serve act
  rw [Arrival.creates_eq_some.mp h]
  rfl

theorem serve_remove {caller : Caller} {groupId userId : String}
    (h : a.removes = some (caller, groupId, userId)) :
    serve P cfg db a = (Shares.runRemove P a.now caller groupId userId db).2 := by
  unfold serve act
  rw [Arrival.removes_eq_some.mp h]
  rfl

theorem onAccounts_act (hpush : a.pushes = none) (hcreate : a.creates = none)
    (hremove : a.removes = none) (hpull : ∀ caller cursor, a.request ≠ .pull caller cursor) :
    Program.Issues Auth.OnAccounts (act P cfg a) := by
  have opened {α : Type} {p : Handler α} (hp : Program.Issues Auth.OpensSession p) :
      Program.Issues Auth.OnAccounts (Program.discard p) :=
    Program.issues_discard (hp.mono Auth.onAccounts_of_opensSession)
  obtain ⟨now, request⟩ := a
  cases request
  case register => exact opened (Auth.issues_register _ _)
  case login => exact opened (Auth.issues_login _)
  case refresh => exact opened (Auth.issues_refresh _)
  case recover => exact opened (Auth.issues_recover _)
  case rewrap => exact Auth.issues_rewrap _ _
  case logout => exact Auth.issues_logout _
  case push => simp [Arrival.pushes] at hpush
  case createShare => simp [Arrival.creates] at hcreate
  case removeShare => simp [Arrival.removes] at hremove
  case pull caller cursor => exact absurd rfl (hpull caller cursor)

/-- Requests that neither push nor share leave records, counter and shares alone. -/
theorem serve_other (hpush : a.pushes = none) (hcreate : a.creates = none)
    (hremove : a.removes = none) :
    (serve P cfg db a).records = db.records ∧ (serve P cfg db a).next = db.next ∧
      (serve P cfg db a).shares = db.shares := by
  by_cases hpull : ∃ caller cursor, a.request = .pull caller cursor
  · obtain ⟨caller, cursor, hpull⟩ := hpull
    have hsame : serve P cfg db a = db := by
      unfold serve act
      rw [hpull]
      exact (Program.run_discard_snd _ _ _).trans Sync.run_pull_snd
    rw [hsame]
    exact ⟨rfl, rfl, rfl⟩
  · push Not at hpull
    exact Auth.run_onAccounts (onAccounts_act hpush hcreate hremove hpull) db

theorem records_serve (hpush : a.pushes = none) : (serve P cfg db a).records = db.records := by
  cases hcreate : a.creates with
  | some c =>
    rw [serve_create hcreate]
    exact Shares.create_frame.1
  | none =>
    cases hremove : a.removes with
    | some c =>
      rw [serve_remove hremove, Shares.run_remove]
      rfl
    | none => exact (serve_other hpush hcreate hremove).1

theorem exists_push_of_new_row {r : RecordEntry} (hr : r ∈ (serve P cfg db a).records.rows)
    (hnew : r ∉ db.records.rows) :
    ∃ caller body, a.pushes = some (caller, body) ∧
      r ∈ (Sync.afterPush P cfg caller a.now body db).records.rows := by
  cases hpush : a.pushes with
  | none =>
    rw [records_serve hpush] at hr
    exact absurd hr hnew
  | some p =>
    rw [serve_push hpush] at hr
    exact ⟨p.1, p.2, rfl, hr⟩

theorem shares_serve (hdb : WellFormed db) (hcreate : a.creates = none)
    (hremove : a.removes = none) : (serve P cfg db a).shares = db.shares := by
  cases hpush : a.pushes with
  | some p =>
    rw [serve_push hpush]
    exact (Sync.afterPush_frame hdb).2.1
  | none => exact (serve_other hpush hcreate hremove).2.2

theorem shares_subset_of_no_create (hdb : WellFormed db) (hcreate : a.creates = none) :
    (serve P cfg db a).shares.rows ⊆ db.shares.rows := by
  cases hremove : a.removes with
  | none =>
    rw [shares_serve hdb hcreate hremove]
    exact List.Subset.refl _
  | some p =>
    intro s hs
    rw [serve_remove hremove] at hs
    exact (Shares.mem_remove.mp hs).1

/-- A share row goes back to one that stood under its key with the same owner, or to a create
that has just succeeded. -/
theorem share_of_serve (hdb : WellFormed db) {s : ShareEntry}
    (hs : s ∈ (serve P cfg db a).shares.rows) :
    (∃ old ∈ db.shares.rows, old.key = s.key ∧ old.ownerId = s.ownerId) ∨
      ∃ caller body, a.creates = some (caller, body) ∧
        ¬ Shares.Refused caller body db ∧
        db.shares.find? (body.groupId, body.userId) = none ∧
        s = ⟨body.groupId, caller.accountId, body.userId, body.wrappedGroupKey, a.now⟩ := by
  cases hcreate : a.creates with
  | none => exact Or.inl ⟨s, shares_subset_of_no_create hdb hcreate hs, rfl, rfl⟩
  | some p =>
    obtain ⟨caller, body⟩ := p
    rw [serve_create hcreate] at hs
    by_cases hok : (Shares.runCreate P a.now caller body db).1 = .ok ()
    · rcases (Shares.mem_create hok).mp hs with ⟨hold, _⟩ | hnew
      · exact Or.inl ⟨s, hold, rfl, rfl⟩
      · cases hfind : db.shares.find? (body.groupId, body.userId) with
        | none =>
          rw [hfind] at hnew
          exact Or.inr ⟨caller, body, rfl, Shares.create_ok_iff.mp hok, hfind, hnew⟩
        | some old =>
          rw [hfind] at hnew
          obtain ⟨hmem, hkey⟩ := KeyedTable.find?_eq_some.mp hfind
          rw [hnew]
          exact Or.inl ⟨old, hmem, rfl, rfl⟩
    · rw [Shares.create_error hok] at hs
      exact Or.inl ⟨s, hs, rfl, rfl⟩

end Server
end RemotierSync
