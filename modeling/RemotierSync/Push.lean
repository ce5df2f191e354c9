import RemotierSync.Filing

/-!
# What a push changes

A caller with an account has every routed envelope written, a caller without one changes
nothing. From this follow when a row of another account changes at all (`push_changes_iff`),
where a new row comes from (`new_row_of_push`), and that a push writes only to its caller's
account and to owners of groups the caller is in (`route_foreign`).
-/

namespace RemotierSync.Sync

open SqliteStore

def afterPush (P : Platform) (cfg : Config) (caller : Caller) (now : ℤ) (body : List Envelope)
    (db : SqliteDb) : SqliteDb :=
  (Program.run (exec P now) (push cfg caller now body) db).2

def answered (P : Platform) (cfg : Config) (caller : Caller) (now : ℤ) (body : List Envelope)
    (db : SqliteDb) (resp : PushResponse) : Prop :=
  (Program.run (exec P now) (push cfg caller now body) db).1 = .ok resp

instance (P : Platform) (cfg : Config) (caller : Caller) (now : ℤ) (body : List Envelope)
    (db : SqliteDb) (resp : PushResponse) : Decidable (answered P cfg caller now body db resp) :=
  inferInstanceAs (Decidable (_ = _))

variable {P : Platform} {cfg : Config} {caller : Caller} {now : ℤ} {db : SqliteDb}
  {body : List Envelope} {e : Envelope} {accountId : String} {resp : PushResponse}

/-- An envelope filed under another account is keyed to a group which that account owns and the
caller is in. -/
theorem route_foreign {t : Tables} (h : route P cfg caller now t e = .ok accountId)
    (hne : accountId ≠ caller.accountId) :
    ∃ g, e.keyRef = .group g ∧ t.shareOwner P g = some accountId ∧
      ∃ s ∈ t.shares.rows, s.groupId = g ∧
        (s.ownerId = caller.accountId ∨ s.userId = caller.accountId) := by
  cases hkey : e.keyRef with
  | personal => exact absurd (route_personal h hkey) hne
  | group g =>
    obtain ⟨hw, hid⟩ := route_group h hkey
    cases ho : t.shareOwner P g with
    | none =>
      rw [ho, Option.getD_none] at hid
      exact absurd hid.symm hne
    | some owner =>
      rw [ho, Option.getD_some] at hid
      obtain ⟨s, hs, hg, _⟩ := Tables.shareOwner_eq_some ho
      refine ⟨g, rfl, by rw [ho, hid], ?_⟩
      exact (Tables.canWriteGroup_iff.mp hw).resolve_left (fun hno => hno s hs hg)

theorem accounts_of_route_foreign (hdb : WellFormed db)
    (h : route P cfg caller now db.toTables e = .ok accountId)
    (hne : accountId ≠ caller.accountId) :
    db.accountById caller.accountId ≠ none ∧ db.accountById accountId ≠ none := by
  obtain ⟨g, _, ho, s, hs, _, hcaller⟩ := route_foreign h hne
  obtain ⟨s', hs', _, howner⟩ := Tables.shareOwner_eq_some ho
  refine ⟨?_, ?_⟩
  · rcases hcaller with hc | hc
    · rw [← hc]
      exact (hdb.share_accounts s hs).1
    · rw [← hc]
      exact (hdb.share_accounts s hs).2
  · rw [← howner]
    exact (hdb.share_accounts s' hs').1

theorem filed_accounts (P : Platform) (cfg : Config) (now : ℤ) (body : List Envelope)
    (hdb : WellFormed db) (hcaller : db.accountById caller.accountId ≠ none) :
    ∀ w ∈ filed P cfg caller now db.toTables body, db.accountById w.1 ≠ none := by
  intro w hw
  by_cases hw1 : w.1 = caller.accountId
  · rwa [hw1]
  · exact (accounts_of_route_foreign hdb (mem_filed.mp hw).2 hw1).2

theorem fileAll_of_no_account {rep : Report} (hdb : WellFormed db)
    (hcaller : db.accountById caller.accountId = none) :
    (fileAll P cfg caller now body rep db).2 = db := by
  induction body generalizing rep with
  | nil => rfl
  | cons e rest ih =>
    unfold fileAll fileOne
    cases hroute : route P cfg caller now db.toTables e with
    | error reason => exact ih
    | ok accountId =>
      have hid : accountId = caller.accountId := by
        by_contra hne
        exact (accounts_of_route_foreign hdb hroute hne).1 hcaller
      have hfile : ¬ Fileable db accountId e := by
        rw [hdb.fileable_iff, hid]
        exact not_not.mpr hcaller
      simp only [fileAt, putEnvelope_of_not_fileable hfile]

theorem coherent_initial {t : Tables} : Coherent P caller t .initial := ⟨agrees_nil, agrees_nil⟩

theorem matches_pushAll (cfg : Config) (now : ℤ) (body : List Envelope) (db : SqliteDb) :
    Matches P caller
      (Program.run (exec P now) (pushAll cfg caller now body .initial) db)
      (fileAll P cfg caller now body ⟨[], []⟩ db) :=
  run_pushAll cfg now body coherent_initial

def reportOf (resp : PushResponse) : Report := ⟨resp.accepted, resp.rejected⟩

theorem run_push_eq : Program.run (exec P now) (push cfg caller now body) db =
    match fileAll P cfg caller now body ⟨[], []⟩ db with
    | (.ok rep, db') => (.ok ⟨rep.accepted, rep.rejected, db'.next⟩, db')
    | (.error err, db') => (.error err, db') := by
  obtain ⟨hsnd, hfst⟩ : Matches P caller _ _ := matches_pushAll cfg now body db
  unfold push
  rcases hrun : Program.run (exec P now) (pushAll cfg caller now body .initial) db with
      ⟨err | st, db'⟩ <;>
    rcases hfile : fileAll P cfg caller now body ⟨[], []⟩ db with ⟨err' | rep, db''⟩ <;>
    rw [hrun, hfile] at hsnd hfst <;> obtain rfl : db' = db'' := hsnd
  · obtain rfl : err = err' := hfst
    rw [Program.run_bind_error _ hrun]
  · exact hfst.elim
  · exact hfst.elim
  · obtain ⟨rfl, _⟩ := hfst
    rw [Program.run_bind_ok _ hrun]
    rfl

theorem push_answered (h : answered P cfg caller now body db resp) :
    afterPush P cfg caller now body db = puts P db (filed P cfg caller now db.toTables body) ∧
      Reports P cfg caller now body ⟨[], []⟩ (reportOf resp) db
        (afterPush P cfg caller now body db) := by
  unfold answered at h
  unfold afterPush
  rw [run_push_eq] at h ⊢
  rcases hfile : fileAll P cfg caller now body ⟨[], []⟩ db with ⟨err | rep, db'⟩
  · simp [hfile] at h
  · rw [hfile] at h
    obtain rfl := Except.ok.inj h
    exact fileAll_ok hfile

theorem push_isOk (P : Platform) (cfg : Config) (now : ℤ) (body : List Envelope)
    (hdb : WellFormed db) (hcaller : db.accountById caller.accountId ≠ none) :
    ∃ resp, answered P cfg caller now body db resp := by
  obtain ⟨rep, db', hfile⟩ := fileAll_isOk ⟨[], []⟩ (filed_accounts P cfg now body hdb hcaller)
  unfold answered
  rw [run_push_eq, hfile]
  exact ⟨_, rfl⟩

theorem afterPush_of_account (hdb : WellFormed db)
    (hcaller : db.accountById caller.accountId ≠ none) :
    afterPush P cfg caller now body db = puts P db (filed P cfg caller now db.toTables body) := by
  obtain ⟨resp, hresp⟩ := push_isOk P cfg now body hdb hcaller
  exact (push_answered hresp).1

theorem afterPush_of_no_account (hdb : WellFormed db)
    (hcaller : db.accountById caller.accountId = none) :
    afterPush P cfg caller now body db = db := by
  unfold afterPush
  rw [run_push_eq]
  have hsnd : (fileAll P cfg caller now body ⟨[], []⟩ db).2 = db :=
    fileAll_of_no_account hdb hcaller
  rcases hfile : fileAll P cfg caller now body ⟨[], []⟩ db with ⟨err | rep, db'⟩ <;>
    rwa [hfile] at hsnd

theorem afterPush_frame (hdb : WellFormed db) :
    (afterPush P cfg caller now body db).accounts = db.accounts ∧
      (afterPush P cfg caller now body db).shares = db.shares ∧
      (afterPush P cfg caller now body db).tokens = db.tokens := by
  by_cases hcaller : db.accountById caller.accountId = none
  · rw [afterPush_of_no_account hdb hcaller]
    exact ⟨rfl, rfl, rfl⟩
  · rw [afterPush_of_account hdb hcaller]
    exact puts_frame

theorem wellFormed_afterPush (hdb : WellFormed db) :
    WellFormed (afterPush P cfg caller now body db) :=
  wellFormed_run _ hdb

/-- The envelope of the batch that takes the row under a key. -/
def takes (P : Platform) (cfg : Config) (caller : Caller) (now : ℤ) (body : List Envelope)
    (db : SqliteDb) (k : String × String × String) : Option Envelope :=
  winner db (filed P cfg caller now db.toTables body) k

theorem filed_of_takes {k : String × String × String}
    (h : takes P cfg caller now body db k = some e) :
    e ∈ body ∧ route P cfg caller now db.toTables e = .ok k.1 ∧ recordKey k.1 e = k ∧
      Supersedes (db.records.find? k) e.clock := by
  obtain ⟨hmax, hs⟩ := winner_eq_some.mp h
  obtain ⟨hmem, hkey⟩ := mem_envelopesAt.mp (LastWrite.mem_of_argmax_eq_some hmax)
  obtain ⟨he, hroute⟩ := mem_filed.mp hmem
  exact ⟨he, hroute, hkey, hs⟩

/-- A row of another account changes exactly if an envelope of the batch takes it. -/
theorem push_changes_iff (hdb : WellFormed db) {k : String × String × String}
    (hne : k.1 ≠ caller.accountId) :
    (afterPush P cfg caller now body db).records.find? k ≠ db.records.find? k ↔
      ∃ e, takes P cfg caller now body db k = some e := by
  by_cases hacc : db.accountById caller.accountId ≠ none ∧ db.accountById k.1 ≠ none
  · rw [afterPush_of_account hdb hacc.1]
    exact find?_puts_ne_iff hacc.2
  · have hsame : (afterPush P cfg caller now body db).records.find? k = db.records.find? k := by
      by_cases hcaller : db.accountById caller.accountId = none
      · rw [afterPush_of_no_account hdb hcaller]
      · have hk : db.accountById k.1 = none := by
          by_contra hk
          exact hacc ⟨hcaller, hk⟩
        have hk' : (afterPush P cfg caller now body db).accountById k.1 = none := by
          rwa [Tables.accountById, (afterPush_frame hdb).1]
        rw [hdb.find?_eq_none hk, (wellFormed_afterPush hdb).find?_eq_none hk']
    refine iff_of_false (not_not.mpr hsame) ?_
    rintro ⟨e, he⟩
    exact hacc (accounts_of_route_foreign hdb (filed_of_takes he).2.1 hne)

theorem row_of_takes (hdb : WellFormed db) {k : String × String × String}
    (hne : k.1 ≠ caller.accountId) (h : takes P cfg caller now body db k = some e) :
    ∃ seq, (afterPush P cfg caller now body db).records.find? k =
      some (P.recordEntry k.1 e seq) := by
  obtain ⟨hcaller, hacc⟩ := accounts_of_route_foreign hdb (filed_of_takes h).2.1 hne
  obtain ⟨seq, _, hfind⟩ := find?_puts_of_winner_eq_some (P := P) hacc h
  rw [afterPush_of_account hdb hcaller]
  exact ⟨seq, hfind⟩

/-- A row that a push adds is the envelope that took it, under a number the push reports. -/
theorem new_row_of_push (hdb : WellFormed db) {r : RecordEntry}
    (hr : r ∈ (afterPush P cfg caller now body db).records.rows) (hnew : r ∉ db.records.rows) :
    ∃ e resp, takes P cfg caller now body db r.key = some e ∧
      r = P.recordEntry r.accountId e r.seq ∧ answered P cfg caller now body db resp ∧
      ⟨r.id, r.kind, r.seq⟩ ∈ resp.accepted := by
  have hcaller : db.accountById caller.accountId ≠ none := by
    intro hcaller
    rw [afterPush_of_no_account hdb hcaller] at hr
    exact hnew hr
  have hacc : db.accountById r.key.1 ≠ none := by
    rw [Tables.accountById, ← (afterPush_frame hdb).1]
    exact (wellFormed_afterPush hdb).record_accounts r hr
  obtain ⟨resp, hresp⟩ := push_isOk P cfg now body hdb hcaller
  obtain ⟨hputs, hreps⟩ := push_answered hresp
  have hfind := KeyedTable.find?_isSome_of_mem hr
  rw [hputs] at hfind
  rcases find?_puts P (filed P cfg caller now db.toTables body) hacc with
    ⟨_, hsame⟩ | ⟨e, seq, hw, _, hsome⟩
  · rw [hsame] at hfind
    exact absurd (KeyedTable.find?_eq_some.mp hfind).1 hnew
  · have hrow : P.recordEntry r.accountId e seq = r := Option.some.inj (hsome.symm.trans hfind)
    have hseq : seq = r.seq := congrArg RecordEntry.seq hrow
    refine ⟨e, resp, hw, ?_, hresp, (hreps.stored r hr).resolve_left hnew⟩
    rw [← hseq]
    exact hrow.symm

end RemotierSync.Sync
