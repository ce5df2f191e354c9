import RemotierSync.Convergence
import RemotierSync.Library.Shuffle

/-!
# Pushes at the same time

A push is many store calls, and those of other pushes may come between any two of them. As long as
nobody shares or unshares a group meanwhile, that changes nothing about what is stored: where an
envelope is filed does not depend on the records, so that the writes of all pushes are known before
the first of them is made, and of a shuffle of them every record keeps the version with the greatest
clock. The pushes leave the versions that they leave one after the other, in whatever order.
-/

namespace RemotierSync.Concurrent

open SqliteStore Sync Convergence Program

structure Batch where
  caller : Caller
  now : ℤ
  body : List Envelope
deriving DecidableEq

variable (P : Platform) (cfg : Config)

def Batch.writes (t : Tables) (b : Batch) : List (String × Envelope) :=
  filed P cfg b.caller b.now t b.body

def Batch.serve (db : SqliteDb) (b : Batch) : SqliteDb := afterPush P cfg b.caller b.now b.body db

variable {ι : Type} [DecidableEq ι]

/-- The handlers of the batches, none of which has made a call. -/
def pool (db : SqliteDb) (batches : ι → Batch) : Pool ι Call Call.Ret Error SqliteDb where
  store := db
  tasks i := Program.discard (push cfg (batches i).caller (batches i).now (batches i).body)

/-- The state behind a schedule. Each turn has a time of its own. -/
def scheduled (db : SqliteDb) (batches : ι → Batch) (turns : List (Turn ι ℤ)) :
    Pool ι Call Call.Ret Error SqliteDb :=
  History.run (Pool.turn (exec P)) (pool cfg db batches) turns

def storedVersion (db : SqliteDb) (k : String × String × String) : Option RecordEntry :=
  (db.records.find? k).map RecordEntry.version

def offered (db : SqliteDb) (batches : ι → Batch) (order : List ι)
    (k : String × String × String) : List Envelope :=
  envelopesAt k (order.flatMap fun i => (batches i).writes P cfg db.toTables)

variable {P} {cfg} {db : SqliteDb} {batches : ι → Batch} {caller : Caller} {now : ℤ} {t : Tables}
  {k : String × String × String} {writes writes' : List (String × Envelope)}

/-! ## The writes of a push are known -/

variable (P) in
/-- The calls of a push, with what its questions are answered while the shares stand. -/
def discipline (t : Tables) : Discipline Call Call.Ret (String × Envelope) where
  write
    | .putEnvelope accountId e => some (accountId, e)
    | _ => none
  asks
    | .canWriteGroup .. => True
    | .shareOwner _ => True
    | .maxSeq _ => True
    | _ => False
  answers
    | .canWriteGroup accountId groupId, allowed => allowed = t.canWriteGroup accountId groupId
    | .shareOwner groupId, owner => owner = t.shareOwner P groupId
    | _, _ => True

theorem performs_askOnce {β : Type} {answer : String → β} {known : List (String × β)}
    {groupId : String} {question : Handler β}
    (hquestion : Performs (discipline P t) (fun b => b = answer groupId) question [])
    (h : Agrees answer known) :
    Performs (discipline P t) (fun p => p.1 = answer groupId ∧ Agrees answer p.2)
      (askOnce known groupId question) [] := by
  unfold askOnce
  cases hk : known.lookup groupId with
  | some b => exact ⟨⟨h groupId b hk, h⟩, rfl⟩
  | none =>
    rw [← List.append_nil []]
    refine performs_bind hquestion fun b hb => ⟨⟨hb, ?_⟩, rfl⟩
    rw [hb]
    exact h.cons

theorem performs_store {st : PushState} {accountId : String} {e : Envelope}
    (h : Coherent P caller t st) :
    Performs (discipline P t) (Coherent P caller t) (store accountId e st) [(accountId, e)] := by
  refine performs_write rfl fun answer => ?_
  cases answer with
  | none => exact ⟨h, rfl⟩
  | some seq => exact ⟨h, rfl⟩

theorem performs_pushOne (cfg : Config) (now : ℤ) (e : Envelope) {st : PushState}
    (h : Coherent P caller t st) :
    Performs (discipline P t) (Coherent P caller t) (pushOne cfg caller now e st)
      (filed P cfg caller now t [e]) := by
  have hfiled : filed P cfg caller now t [e] =
      ((route P cfg caller now t e).toOption.map (fun a => (a, e))).toList := by
    cases hroute : route P cfg caller now t e <;> simp [filed, hroute, Except.toOption]
  rw [hfiled]
  unfold pushOne route
  cases hrefuse : refuse cfg e now with
  | some reason => exact ⟨h, rfl⟩
  | none =>
    cases hkey : e.keyRef with
    | personal => exact performs_store h
    | group groupId =>
      have hwritable : Performs (discipline P t)
          (fun b => b = t.canWriteGroup caller.accountId groupId)
          (ask (.canWriteGroup caller.accountId groupId)) [] :=
        performs_ask rfl trivial fun allowed hallowed => ⟨hallowed, rfl⟩
      have howner : Performs (discipline P t) (fun b => b = t.shareOwner P groupId)
          (ask (.shareOwner groupId)) [] :=
        performs_ask rfl trivial fun owner howner => ⟨howner, rfl⟩
      dsimp only
      rw [← List.nil_append (Option.toList _)]
      refine performs_bind (performs_askOnce hwritable h.1) ?_
      rintro ⟨allowed, writable⟩ ⟨hallowed, hagrees⟩
      obtain rfl : allowed = t.canWriteGroup caller.accountId groupId := hallowed
      dsimp only
      split_ifs with hmay
      · rw [← List.nil_append (Option.toList _)]
        refine performs_bind (performs_askOnce howner h.2) ?_
        rintro ⟨owner, owners⟩ ⟨howner', hagrees'⟩
        obtain rfl : owner = t.shareOwner P groupId := howner'
        have hst : Coherent P caller t { st with writable := writable, owners := owners } :=
          ⟨hagrees, hagrees'⟩
        exact performs_store hst
      · exact ⟨⟨hagrees, h.2⟩, rfl⟩

theorem performs_pushAll (cfg : Config) (now : ℤ) (body : List Envelope) {st : PushState}
    (h : Coherent P caller t st) :
    Performs (discipline P t) (Coherent P caller t) (pushAll cfg caller now body st)
      (filed P cfg caller now t body) := by
  induction body generalizing st with
  | nil => exact ⟨h, rfl⟩
  | cons e rest ih =>
    have hsplit : filed P cfg caller now t (e :: rest) =
        filed P cfg caller now t [e] ++ filed P cfg caller now t rest := by
      rw [filed, filed, filed, ← List.filterMap_append]
      rfl
    rw [hsplit]
    exact performs_bind (performs_pushOne cfg now e h) fun st hst => ih hst

theorem performs_push (cfg : Config) (caller : Caller) (now : ℤ) (body : List Envelope) :
    Performs (discipline P t) (fun _ => True)
      (Program.discard (push cfg caller now body))
      (filed P cfg caller now t body) := by
  rw [← List.append_nil (filed P cfg caller now t body)]
  refine performs_bind (Q := fun _ : PushResponse => True) ?_ fun _ _ => ⟨trivial, rfl⟩
  rw [← List.append_nil (filed P cfg caller now t body)]
  exact performs_bind (performs_pushAll cfg now body coherent_initial) fun st _ =>
    performs_ask rfl trivial fun seq _ => ⟨trivial, rfl⟩

/-! ## A shuffle of writes -/

/-- While the pushes run nothing but records is written. -/
def Stands (t : Tables) (db : SqliteDb) : Prop := db.shares = t.shares ∧ db.accounts = t.accounts

theorem serves : Pool.Serves (exec P) (discipline P t)
    (fun db w => (putEnvelope P w.1 w.2 db).2) (Stands t) (fun w => t.accountById w.1 ≠ none) where
  writes now c w db hc hw hdb := by
    cases c with
    | putEnvelope accountId e =>
      obtain rfl : (accountId, e) = w := Option.some.inj hc
      have hfile : Fileable db accountId e :=
        fileable_of_account (by rwa [Tables.accountById, hdb.2])
      refine ⟨_, Prod.ext (putEnvelope_fst hfile) rfl, ?_⟩
      exact ⟨putEnvelope_shares.trans hdb.1, putEnvelope_accounts.trans hdb.2⟩
    | _ => cases hc
  questions now c db hc hasks hdb := by
    obtain ⟨hw, ho⟩ := answers_congr (P := P) hdb.1
    cases c with
    | canWriteGroup accountId groupId =>
      exact ⟨_, rfl, congrFun (congrFun hw accountId) groupId⟩
    | shareOwner groupId => exact ⟨_, rfl, congrFun ho groupId⟩
    | maxSeq accountId => exact ⟨_, rfl, trivial⟩
    | _ => exact hasks.elim

theorem storedVersion_puts_congr (hacc : db.accountById k.1 ≠ none)
    (hmem : ∀ e, e ∈ envelopesAt k writes' ↔ e ∈ envelopesAt k writes)
    (hties : TiesAgree (envelopesAt k writes)) :
    storedVersion (puts P db writes') k = storedVersion (puts P db writes) k := by
  have hbest := deviceFold_congr hties hmem
  rw [deviceFold_eq_argmax, deviceFold_eq_argmax] at hbest
  have hwinner : (winner db writes' k).map unnumbered = (winner db writes k).map unnumbered := by
    unfold winner
    cases hmax : (envelopesAt k writes).argmax Envelope.clock with
    | none =>
      rw [hmax, Option.map_none, Option.map_eq_none_iff] at hbest
      rw [hbest]
    | some e =>
      rw [hmax, Option.map_some] at hbest
      obtain ⟨e', he', hsame⟩ := Option.map_eq_some_iff.mp hbest
      have hclock : (unnumbered e').clock = (unnumbered e).clock := congrArg Envelope.clock hsame
      change e'.clock = e.clock at hclock
      rw [he', Option.filter_some, Option.filter_some, hclock]
      split_ifs
      · rw [Option.map_some, Option.map_some, hsame]
      · rfl
  have hrow (e : Envelope) (seq : ℤ) :
      (P.recordEntry k.1 e seq).version = P.recordEntry k.1 (unnumbered e) 0 := rfl
  unfold storedVersion
  rcases find?_puts P writes hacc with ⟨hw, hfind⟩ | ⟨e, seq, hw, _, hfind⟩ <;>
    rcases find?_puts P writes' hacc with ⟨hw', hfind'⟩ | ⟨e', seq', hw', _, hfind'⟩ <;>
    rw [hw, hw'] at hwinner <;> rw [hfind, hfind']
  · cases hwinner
  · cases hwinner
  · have hsame : unnumbered e' = unnumbered e := Option.some.inj hwinner
    rw [Option.map_some, Option.map_some, hrow, hrow, hsame]

theorem mem_envelopesAt_congr (h : ∀ w, w ∈ writes' ↔ w ∈ writes) (e : Envelope) :
    e ∈ envelopesAt k writes' ↔ e ∈ envelopesAt k writes := by
  rw [mem_envelopesAt, mem_envelopesAt, h]

/-! ## One after the other -/

omit [DecidableEq ι] in
/-- Served one after the other the batches make their writes one after the other. -/
theorem foldl_serve (hdb : WellFormed db)
    (hcallers : ∀ i, db.accountById (batches i).caller.accountId ≠ none) (order : List ι) :
    order.foldl (fun db i => (batches i).serve P cfg db) db =
      puts P db (order.flatMap fun i => (batches i).writes P cfg db.toTables) := by
  induction order using List.reverseRecOn with
  | nil => rfl
  | append_singleton order i ih =>
    rw [List.foldl_append, ih, List.flatMap_append]
    have hcaller : (puts P db (order.flatMap fun i =>
        (batches i).writes P cfg db.toTables)).accountById (batches i).caller.accountId ≠ none := by
      rw [Tables.accountById, puts_frame.1]
      exact hcallers i
    rw [List.foldl_cons, List.foldl_nil, Batch.serve,
      afterPush_of_account (wellFormed_puts hdb _) hcaller, filed_congr puts_frame.2.1]
    unfold puts
    rw [List.foldl_append, List.flatMap_singleton]
    rfl

/-- Pushes that run at the same time leave the versions that they leave one after the other. -/
theorem concurrent_pushes_serialize (P : Platform) (cfg : Config) (db : SqliteDb)
    (hdb : WellFormed db) (batches : ι → Batch)
    (hcallers : ∀ i, db.accountById (batches i).caller.accountId ≠ none)
    (turns : List (Turn ι ℤ)) (order : List ι)
    (hdone : ∀ i, ((scheduled P cfg db batches turns).tasks i).next? = none)
    (horder : ∀ i, i ∈ order) (k : String × String × String)
    (hties : TiesAgree (offered P cfg db batches order k)) :
    storedVersion (scheduled P cfg db batches turns).store k =
      storedVersion (order.foldl (fun db i => (batches i).serve P cfg db) db) k := by
  have hvalid (i : ι) : ∀ w ∈ (batches i).writes P cfg db.toTables, db.accountById w.1 ≠ none :=
    filed_accounts P cfg (batches i).now (batches i).body hdb (hcallers i)
  obtain ⟨log, hlog⟩ := Pool.shuffled_run (serves (P := P) (t := db.toTables)) hvalid
    (s := pool cfg db batches) ⟨rfl, rfl⟩
    (fun i => performs_push cfg (batches i).caller (batches i).now (batches i).body) turns
  have hstore : (scheduled P cfg db batches turns).store = puts P db (log.map Prod.snd) :=
    hlog.store
  have hsame (w : String × Envelope) : w ∈ log.map Prod.snd ↔
      w ∈ order.flatMap fun i => (batches i).writes P cfg db.toTables := by
    have hshare (i : ι) : Pool.share i log = (batches i).writes P cfg db.toTables :=
      hlog.share_eq (hdone i)
    simp only [List.mem_map, List.mem_flatMap, ← hshare, Pool.mem_share]
    constructor
    · rintro ⟨⟨i, w⟩, hw, rfl⟩
      exact ⟨i, horder i, hw⟩
    · rintro ⟨i, _, hw⟩
      exact ⟨(i, w), hw, rfl⟩
  rw [hstore, foldl_serve hdb hcallers order]
  by_cases hacc : db.accountById k.1 = none
  · have hnone (ws : List (String × Envelope)) : (puts P db ws).records.find? k = none := by
      apply (wellFormed_puts hdb ws).find?_eq_none
      rwa [Tables.accountById, puts_frame.1]
    rw [storedVersion, storedVersion, hnone, hnone]
  · exact storedVersion_puts_congr hacc (mem_envelopesAt_congr hsame) hties

def devices : Bool → Batch
  | false => ⟨⟨"ada"⟩, 10, [Reference.host "h" .personal none 5]⟩
  | true => ⟨⟨"ada"⟩, 10,
      [Reference.host "other" .personal none 1, Reference.host "h" .personal none 7]⟩

def turnsOfTwo : List (Turn Bool ℤ) :=
  [⟨true, 10⟩, ⟨false, 11⟩, ⟨true, 12⟩, ⟨false, 13⟩, ⟨true, 14⟩]

theorem devices_serialize :
    let db := Server.reached .reference Reference.config [Reference.registration "ada"]
    storedVersion (scheduled .reference Reference.config db devices turnsOfTwo).store
        ("ada", "host", "h") =
      storedVersion ([true, false].foldl
        (fun db i => (devices i).serve .reference Reference.config db) db) ("ada", "host", "h") :=
  concurrent_pushes_serialize .reference Reference.config
    (Server.reached .reference Reference.config [Reference.registration "ada"])
    (Server.wellFormed_reached _) devices (by decide +kernel) turnsOfTwo [true, false]
    (by decide +kernel) (by decide +kernel) ("ada", "host", "h") (by decide +kernel)

end RemotierSync.Concurrent
