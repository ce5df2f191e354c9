import RemotierSync.Pages
import RemotierSync.Reference

/-!
# One record, one row

Rows are kept apart by the account they are stored under, and a push chooses that account by the
key reference and the shares of the moment. A record has one row as long as no push stores it while
another account holds a row of it (`oneRow_iff`), and then no pull returns two envelopes of one
record. A member who moves a record into a group of somebody else leaves the first row behind.
-/

namespace RemotierSync.OneRow

open SqliteStore Server Pages

variable (P : Platform) (cfg : Config)

def SameRecord (r : RecordEntry) (e : Envelope) : Prop := r.kind = e.kind.asStr ∧ r.id = e.id

instance (r : RecordEntry) (e : Envelope) : Decidable (SameRecord r e) :=
  inferInstanceAs (Decidable (_ ∧ _))

/-- If the write is to be stored, no other account holds a row of the record. -/
def StoredAlone (db : SqliteDb) (w : String × Envelope) : Prop :=
  Fileable db w.1 w.2 → Supersedes (db.records.find? (recordKey w.1 w.2)) w.2.clock →
    ∀ r ∈ db.records.rows, SameRecord r w.2 → r.accountId = w.1

/-- Whatever a push stores is stored under no second account. -/
def FilesOnce (db : SqliteDb) (a : Arrival) : Prop :=
  ∀ p ∈ a.pushes, History.Always (fun db w => (putEnvelope P w.1 w.2 db).2) db StoredAlone
    (Sync.filed P cfg p.1 a.now db.toTables p.2)

instance (db : SqliteDb) (w : String × Envelope) : Decidable (StoredAlone db w) :=
  inferInstanceAs (Decidable (_ → _ → _))

instance (db : SqliteDb) (a : Arrival) : Decidable (FilesOnce P cfg db a) :=
  Option.decidableForallMem _

def OneRowEach (db : SqliteDb) : Prop :=
  ∀ r ∈ db.records.rows, ∀ r' ∈ db.records.rows, r.kind = r'.kind → r.id = r'.id → r = r'

/-- Shares of a group are created by one account, and a record is pushed by its owner or by a
member of the group to which it is keyed. -/
def PushedFromInside (ownerOf : RecordKind → String → String) (sharer : String → String)
    (db : SqliteDb) (a : Arrival) : Prop :=
  (∀ c ∈ a.creates, c.1.accountId = sharer c.2.groupId) ∧
    ∀ p ∈ a.pushes, ∀ e ∈ p.2, p.1.accountId = ownerOf e.kind e.id ∨
      ∃ g, e.keyRef = .group g ∧ g ∈ db.sharedWith p.1.accountId

/-- What an account pulls from the beginning, over all pages, holds one envelope a record. -/
def OneEnvelopeEach (db : SqliteDb) : Prop :=
  ∀ caller now pages es, pullAll P cfg caller now db pages 0 = some es →
    (es.map (fun e => (e.kind, e.id))).Nodup

variable {P} {cfg} {db : SqliteDb} {a : Arrival} {arrivals : List Arrival} {w : String × Envelope}

/-! ## Writes -/

theorem oneRow_put (h : OneRowEach db) (hw : StoredAlone db w) :
    OneRowEach (putEnvelope P w.1 w.2 db).2 := by
  have hnew : ∀ r ∈ (putEnvelope P w.1 w.2 db).2.records.rows, r ∈ db.records.rows →
      ∀ r' ∈ (putEnvelope P w.1 w.2 db).2.records.rows, r' ∉ db.records.rows →
        r.kind = r'.kind → r.id = r'.id → r = r' := by
    intro r hr hold r' hr' hfresh hkind hid
    obtain ⟨rfl, hfile, hsup⟩ := (mem_putEnvelope hr').resolve_left hfresh
    have haccount := hw hfile hsup r hold ⟨hkind, hid⟩
    apply KeyedTable.eq_of_key_eq _ hr hr'
    rw [recordEntry_key, ← haccount]
    exact congrArg (Prod.mk _) (Prod.ext hkind hid)
  intro r hr r' hr' hkind hid
  by_cases hold : r ∈ db.records.rows
  · by_cases hold' : r' ∈ db.records.rows
    · exact h r hold r' hold' hkind hid
    · exact hnew r hr hold r' hr' hold' hkind hid
  · by_cases hold' : r' ∈ db.records.rows
    · exact (hnew r' hr' hold' r hr hold hkind.symm hid.symm).symm
    · rw [((mem_putEnvelope hr).resolve_left hold).1, ((mem_putEnvelope hr').resolve_left hold').1]

theorem oneRow_puts (h : OneRowEach db) {writes : List (String × Envelope)}
    (hwrites : History.Always (fun db w => (putEnvelope P w.1 w.2 db).2) db StoredAlone writes) :
    OneRowEach (puts P db writes) := by
  refine History.run_induction (I := fun writes => OneRowEach (puts P db writes)) h ?_ hwrites
  intro writes w ih hw
  rw [puts_snoc]
  exact oneRow_put ih hw

theorem oneRow_serve (hdb : WellFormed db) (h : OneRowEach db) (ha : FilesOnce P cfg db a) :
    OneRowEach (serve P cfg db a) := by
  cases hpush : a.pushes with
  | none =>
    unfold OneRowEach
    rw [records_serve hpush]
    exact h
  | some p =>
    rw [serve_push hpush]
    by_cases hcaller : db.accountById p.1.accountId = none
    · rwa [Sync.afterPush_of_no_account hdb hcaller]
    · rw [Sync.afterPush_of_account hdb hcaller]
      exact oneRow_puts h (ha p hpush)

/-! ## Two rows of one record stay -/

theorem find?_putEnvelope_ne_none {accountId : String} {e : Envelope} {k : String × String × String}
    (h : db.records.find? k ≠ none) : (putEnvelope P accountId e db).2.records.find? k ≠ none := by
  by_cases hfile : Fileable db accountId e
  · rw [find?_putEnvelope hfile]
    split_ifs
    · simp
    · exact h
  · rwa [putEnvelope_of_not_fileable hfile]

theorem find?_puts_ne_none {k : String × String × String} (h : db.records.find? k ≠ none)
    (writes : List (String × Envelope)) : (puts P db writes).records.find? k ≠ none := by
  induction writes using List.reverseRecOn with
  | nil => exact h
  | append_singleton writes w ih =>
    rw [puts_snoc]
    exact find?_putEnvelope_ne_none ih

theorem eq_of_oneRow (h : OneRowEach db) {accountId accountId' kind id : String}
    (hfind : db.records.find? (accountId, kind, id) ≠ none)
    (hfind' : db.records.find? (accountId', kind, id) ≠ none) : accountId = accountId' := by
  obtain ⟨r, hr⟩ := Option.ne_none_iff_exists'.mp hfind
  obtain ⟨r', hr'⟩ := Option.ne_none_iff_exists'.mp hfind'
  obtain ⟨hmem, hkey⟩ := KeyedTable.find?_eq_some.mp hr
  obtain ⟨hmem', hkey'⟩ := KeyedTable.find?_eq_some.mp hr'
  have hrecord : r.key.2 = r'.key.2 := by rw [hkey, hkey']
  obtain rfl := h r hmem r' hmem' (congrArg Prod.fst hrecord) (congrArg Prod.snd hrecord)
  exact congrArg Prod.fst (hkey.symm.trans hkey')

theorem account_of_fileable {caller : Caller} {now : ℤ} {body : List Envelope}
    (hdb : WellFormed db) {before after : List (String × Envelope)}
    (hw : Sync.filed P cfg caller now db.toTables body = before ++ w :: after)
    (hfile : Fileable (puts P db before) w.1 w.2) : db.accountById caller.accountId ≠ none := by
  intro hnone
  have hid : w.1 = caller.accountId := by
    by_contra hne
    exact (Sync.accounts_of_route_foreign hdb (Sync.routed_of_filed hw).2 hne).1 hnone
  rw [(wellFormed_puts hdb before).fileable_iff, hid, Tables.accountById, puts_frame.1] at hfile
  exact hfile hnone

theorem filesOnce_of_oneRow (hdb : WellFormed db) (h : OneRowEach (serve P cfg db a)) :
    FilesOnce P cfg db a := by
  rintro ⟨caller, body⟩ hpush before w after hfiled hfile hsup r hr ⟨hkind, hid⟩
  change Fileable (puts P db before) w.1 w.2 at hfile
  change Supersedes ((puts P db before).records.find? _) _ at hsup
  change r ∈ (puts P db before).records.rows at hr
  by_contra hne
  have hserve : serve P cfg db a =
      puts P (putEnvelope P w.1 w.2 (puts P db before)).2 after := by
    rw [serve_push hpush, Sync.afterPush_of_account hdb (account_of_fileable hdb hfiled hfile),
      hfiled, puts_append_cons]
  rw [hserve] at h
  have hnew : (putEnvelope P w.1 w.2 (puts P db before)).2.records.find?
      (recordKey w.1 w.2) ≠ none := by
    rw [find?_putEnvelope hfile, if_pos ⟨rfl, hsup⟩]
    simp
  have hkey : r.key = (r.accountId, w.2.kind.asStr, w.2.id) := by
    rw [← hkind, ← hid]
    rfl
  have hold : (puts P db before).records.find? r.key ≠ none := by
    rw [KeyedTable.find?_isSome_of_mem hr]
    simp
  rw [hkey] at hold
  exact hne (eq_of_oneRow h (find?_puts_ne_none (find?_putEnvelope_ne_none hold) after)
    (find?_puts_ne_none hnew after))

/-- In every state of a run each record has one row exactly if no push stores a record under a
second account. -/
theorem oneRow_iff :
    (∀ before after, arrivals = before ++ after → OneRowEach (reached P cfg before)) ↔
      History.Always (serve P cfg) .migrated (FilesOnce P cfg) arrivals := by
  constructor
  · rintro h before a after rfl
    have hnext := h (before ++ [a]) after (by simp)
    rw [reached_snoc] at hnext
    exact filesOnce_of_oneRow (wellFormed_reached before) hnext
  · rintro h before after rfl
    refine History.run_induction (I := fun arrivals => OneRowEach (reached P cfg arrivals)) ?_ ?_
      (History.always_of_append h)
    · intro r hr
      simp [reached] at hr
    · intro arrivals a ih ha
      rw [reached_snoc]
      exact oneRow_serve (wellFormed_reached arrivals) ih ha

/-! ## Pulls -/

theorem map_record_of_decodes {rows : List RecordEntry} {es : List Envelope}
    (h : List.Forall₂ (Sync.Decodes P) rows es) :
    es.map (fun e => (e.kind.asStr, e.id)) = rows.map (fun r => (r.kind, r.id)) := by
  induction h with
  | nil => rfl
  | cons hr _ ih =>
    obtain ⟨hid, hkind, _⟩ := envelopeFromRow_columns hr
    rw [List.map_cons, List.map_cons, ih, hid, RecordKind.eq_asStr_of_parse hkind]

theorem oneEnvelopeEach_of_oneRow (hdb : WellFormed db) (h : OneRowEach db) :
    OneEnvelopeEach P cfg db := by
  intro caller now pages es hpull
  have hrows : ((db.pullRows caller.accountId 0).map (fun r => (r.kind, r.id))).Nodup := by
    refine List.Nodup.map_on ?_ ?_
    · intro r hr r' hr' hsame
      obtain ⟨hkind, hid⟩ := Prod.mk.inj hsame
      exact h r (Tables.mem_pullRows.mp hr).1.1 r' (Tables.mem_pullRows.mp hr').1.1 hkind hid
    · exact ChangeLog.nodup_of_pairwise_lt (ChangeLog.after_pairwise_lt (hdb.distinct.filter _))
  rw [← map_record_of_decodes (decodes_of_pullAll hdb hpull)] at hrows
  refine List.Nodup.of_map (fun p : RecordKind × String => (p.1.asStr, p.2)) ?_
  rw [List.map_map]
  exact hrows

/-- In a run in which no push stores a record under a second account, no account ever pulls two
envelopes of one record. -/
theorem one_envelope_each (P : Platform) (cfg : Config) (arrivals : List Arrival)
    (h : History.Always (serve P cfg) .migrated (FilesOnce P cfg) arrivals) :
    OneEnvelopeEach P cfg (reached P cfg arrivals) :=
  oneEnvelopeEach_of_oneRow (wellFormed_reached arrivals)
    (oneRow_iff.mpr h arrivals [] (List.append_nil arrivals).symm)

section Runs

open Reference

def memberMoves : List Arrival := accounts ++ [
  ⟨1, .createShare ⟨"ada"⟩ ⟨"g", "bob", "wrapped"⟩⟩,
  ⟨2, .push ⟨"bob"⟩ [host "h" .personal none 5]⟩,
  ⟨3, .push ⟨"bob"⟩ [sharedHost 6]⟩]

/-- The record now has a row under Bob and a row under Ada, and Bob pulls both. -/
theorem moved_record_has_two_rows :
    History.Always (serve .reference config) .migrated
        (PushedFromInside (fun _ _ => "bob") (fun _ => "ada")) memberMoves ∧
      ¬ OneEnvelopeEach .reference config (reached .reference config memberMoves) := by
  constructor
  · intro before a after hsplit
    have hall : ∀ a ∈ memberMoves, (∀ c ∈ a.creates, c.1.accountId = "ada") ∧
        ∀ p ∈ a.pushes, p.1.accountId = "bob" := by decide +kernel
    obtain ⟨hcreates, hpushes⟩ := hall a (by rw [hsplit]; simp)
    exact ⟨hcreates, fun p hp e _ => Or.inl (hpushes p hp)⟩
  · intro h
    have hnodup := h ⟨"bob"⟩ 4 1
      [{ host "h" .personal none 5 with seq := 1 }, { sharedHost 6 with seq := 2 }]
      (by decide +kernel)
    exact absurd hnodup (by decide)

/-- Ada moves a record of hers into her group, Bob edits it there, and she takes it back. -/
def ownerMoves : List Arrival := accounts ++ [
  ⟨1, .push ⟨"ada"⟩ [host "h" .personal none 4]⟩,
  ⟨2, .createShare ⟨"ada"⟩ ⟨"g", "bob", "wrapped"⟩⟩,
  ⟨3, .push ⟨"ada"⟩ [sharedHost 5]⟩,
  ⟨4, .push ⟨"bob"⟩ [sharedHost 6]⟩,
  ⟨5, .push ⟨"ada"⟩ [host "h" .personal none 7]⟩]

theorem moved_record_has_one_row :
    OneEnvelopeEach .reference config (reached .reference config ownerMoves) :=
  one_envelope_each .reference config ownerMoves (by decide +kernel)

end Runs

end RemotierSync.OneRow
