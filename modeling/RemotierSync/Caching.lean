import RemotierSync.Backends
import RemotierSync.Library.Meanwhile

/-!
# What a push remembers

A push asks once for each group whether its caller may write to it, and once who owns it. The
variant that asks again for every envelope does the same: the answers depend on the shares alone,
and no write of the push changes the shares. Other requests may be served between the calls of the
two, as long as they leave the shares as they are.
-/

namespace RemotierSync.Caching

open Program SqliteStore Sync

variable (P : Platform) (cfg : Config) (caller : Caller) (now : ℤ)

/-! ## The variant that asks afresh -/

def storeAfresh (accountId : String) (e : Envelope) (rep : Report) : Handler Report := do
  match ← ask (.putEnvelope accountId e) with
  | some seq => return rep.accept e seq
  | none => return rep.reject e .stale

def pushOneAfresh (e : Envelope) (rep : Report) : Handler Report :=
  match refuse cfg e now with
  | some reason => return rep.reject e reason
  | none =>
    match e.keyRef with
    | .personal => storeAfresh caller.accountId e rep
    | .group groupId => do
      let allowed ← ask (.canWriteGroup caller.accountId groupId)
      if allowed then do
        let owner ← ask (.shareOwner groupId)
        storeAfresh (owner.getD caller.accountId) e rep
      else return rep.reject e .notAMember

def pushAllAfresh : List Envelope → Report → Handler Report
  | [], rep => return rep
  | e :: rest, rep => do
    let rep ← pushOneAfresh cfg caller now e rep
    pushAllAfresh rest rep

def respond (rep : Report) : Handler PushResponse := do
  let cursor ← ask (.maxSeq caller.accountId)
  return { accepted := rep.accepted, rejected := rep.rejected, cursor := cursor }

def pushAfresh (body : List Envelope) : Handler PushResponse := do
  let rep ← pushAllAfresh cfg caller now body ⟨[], []⟩
  respond caller rep

/-- Another request makes a store call that leaves the shares as they are. -/
def Meanwhile (db : SqliteDb) (c : TimedCall) (db' : SqliteDb) : Prop :=
  db' = (exec P c.now c.call db).2 ∧ db'.shares = db.shares

/-- Wherever the shares are those of the tables the two programs do the same. -/
abbrev AlikeFor (t : Tables) {α : Type} (p q : Handler α) : Prop :=
  Alike (exec P now) (Meanwhile P) (fun db => db.shares = t.shares) p q

variable {P} {cfg} {caller} {now} {t : Tables} {st : PushState} {α : Type} {e : Envelope}
  {f : PushState → Handler α} {g : Report → Handler α}

/-! ## The two loops -/

theorem shares_of_meanwhile (db : SqliteDb) (c : TimedCall) (db' : SqliteDb)
    (hdb : db.shares = t.shares) (h : Meanwhile P db c db') : db'.shares = t.shares :=
  h.2.trans hdb

theorem alike_ask {c : Call} {answer : c.Ret} {next : c.Ret → Handler α}
    (h : ∀ db : SqliteDb, db.shares = t.shares → exec P now c db = (.ok answer, db)) :
    AlikeFor P now t (ask c >>= next) (next answer) :=
  alike_of_known shares_of_meanwhile h

theorem exec_canWriteGroup (groupId : String) (db : SqliteDb) (h : db.shares = t.shares) :
    exec P now (.canWriteGroup caller.accountId groupId) db =
      (.ok (t.canWriteGroup caller.accountId groupId), db) := by
  rw [← (answers_congr (P := P) h).1]
  rfl

theorem exec_shareOwner (groupId : String) (db : SqliteDb) (h : db.shares = t.shares) :
    exec P now (.shareOwner groupId) db = (.ok (t.shareOwner P groupId), db) := by
  rw [← (answers_congr (P := P) h).2]
  rfl

/-- Whether the answer is remembered or asked for, it is the one that the shares give. -/
theorem alike_askOnce {β : Type} {answer : String → β} {known : List (String × β)}
    {groupId : String} {question : Handler β} {next : β × List (String × β) → Handler α}
    {q : Handler α} (h : Agrees answer known)
    (hask : ∀ next : β → Handler α,
      AlikeFor P now t (question >>= next) (next (answer groupId)))
    (hnext : ∀ known, Agrees answer known → AlikeFor P now t (next (answer groupId, known)) q) :
    AlikeFor P now t (askOnce known groupId question >>= next) q := by
  unfold askOnce
  cases hk : known.lookup groupId with
  | some b =>
    rw [h groupId b hk]
    exact hnext known h
  | none =>
    dsimp only
    rw [bind_assoc]
    exact (hask _).trans (hnext _ h.cons)

theorem alike_store (accountId : String) (hst : Coherent P caller t st)
    (hf : ∀ st, Coherent P caller t st → AlikeFor P now t (f st) (g st.report)) :
    AlikeFor P now t (store accountId e st >>= f) (storeAfresh accountId e st.report >>= g) := by
  refine alike_call shares_of_meanwhile (fun db hdb => putEnvelope_shares.trans hdb) ?_
  rintro (_ | seq)
  · exact hf { st with report := st.report.reject e .stale } hst
  · exact hf { st with report := st.report.accept e seq } hst

theorem alike_pushOne (cfg : Config) (now : ℤ) (e : Envelope) (hst : Coherent P caller t st)
    (hf : ∀ st, Coherent P caller t st → AlikeFor P now t (f st) (g st.report)) :
    AlikeFor P now t (pushOne cfg caller now e st >>= f)
      (pushOneAfresh cfg caller now e st.report >>= g) := by
  unfold pushOne pushOneAfresh
  cases refuse cfg e now with
  | some reason => exact hf { st with report := st.report.reject e reason } hst
  | none =>
    cases e.keyRef with
    | personal => exact alike_store caller.accountId hst hf
    | group groupId =>
      dsimp only
      rw [bind_assoc, bind_assoc]
      refine alike_askOnce hst.1 (fun _ => alike_ask (exec_canWriteGroup groupId)) ?_
      intro writable hwritable
      refine Alike.trans ?_ (alike_ask (exec_canWriteGroup groupId)).symm
      cases hallowed : t.canWriteGroup caller.accountId groupId with
      | false => exact hf { st with
          writable := writable
          report := st.report.reject e .notAMember } ⟨hwritable, hst.2⟩
      | true =>
        simp only [if_true, bind_assoc]
        refine alike_askOnce hst.2 (fun _ => alike_ask (exec_shareOwner groupId)) ?_
        intro owners howners
        refine Alike.trans ?_ (alike_ask (exec_shareOwner groupId)).symm
        have hst' : Coherent P caller t { st with writable := writable, owners := owners } :=
          ⟨hwritable, howners⟩
        exact alike_store _ hst' hf

theorem alike_pushAll (cfg : Config) (now : ℤ) (body : List Envelope)
    (hst : Coherent P caller t st) (k : Report → Handler α) :
    AlikeFor P now t (pushAll cfg caller now body st >>= fun st => k st.report)
      (pushAllAfresh cfg caller now body st.report >>= k) := by
  induction body generalizing st with
  | nil => exact .refl _
  | cons e rest ih =>
    unfold pushAll pushAllAfresh
    rw [bind_assoc, bind_assoc]
    exact alike_pushOne cfg now e hst (fun _ hst' => ih hst')

/-- A push that remembers what it has asked about groups answers what the one that asks afresh
does, and leaves the same store, alone and among any calls of others that leave the shares as they
are. -/
theorem push_remembers (P : Platform) (cfg : Config) (caller : Caller) (now : ℤ)
    (body : List Envelope) (db : SqliteDb) :
    Program.run (exec P now) (push cfg caller now body) db =
        Program.run (exec P now) (pushAfresh cfg caller now body) db ∧
      ∀ calls res db',
        Among (exec P now) (Meanwhile P) (push cfg caller now body) db calls res db' ↔
          Among (exec P now) (Meanwhile P) (pushAfresh cfg caller now body) db calls res db' := by
  have halike : AlikeFor P now db.toTables (push cfg caller now body)
      (pushAfresh cfg caller now body) :=
    alike_pushAll cfg now body coherent_initial (respond caller)
  exact ⟨halike.run_eq rfl, halike db rfl⟩

end RemotierSync.Caching
