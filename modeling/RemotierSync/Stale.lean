import RemotierSync.OneRow
import RemotierSync.Retries

/-!
# What a client learns after `Stale`

`Stale` says that a newer version exists, and the client pulls and merges. The version that won
is the row under the account to which the envelope was routed, and a push compares with it
whoever can see it. The pull shows it only if that account is the caller's own or its routing
header names a group shared with the caller. If it does neither, and no other account's copy of
the record that the caller sees is as new, the client never learns what its envelope lost to.
-/

namespace RemotierSync.Stale

open SqliteStore Server Pages

variable (P : Platform) (cfg : Config)

/-- After the run a push of the caller's is answered, about the envelope with `Stale`. -/
structure AnsweredStale (arrivals : List Arrival) (a : Arrival) (caller : Caller)
    (body : List Envelope) (os : List Sync.Outcome) (e : Envelope) : Prop where
  push : a.pushes = some (caller, body)
  answers : (Sync.outcomes P cfg caller a.now body (reached P cfg arrivals)).1 = .ok os
  stale : (e, .error .stale) ∈ body.zip os

/-- All pages from the beginning hold a version of the record at least as new. -/
def Resolvable (caller : Caller) (e : Envelope) (db : SqliteDb) : Prop :=
  ∀ now, ∃ e', Delivers P cfg caller now db 0 e' ∧ e'.kind = e.kind ∧ e'.id = e.id ∧
    e.clock ≤ e'.clock

/-- The row the envelope was compared with is the caller's own, or labelled with a group that is
shared with the caller. -/
def WinnerInSight (accountId : String) (caller : Caller) (e : Envelope) (db : SqliteDb) : Prop :=
  accountId = caller.accountId ∨ ∃ r, db.records.find? (recordKey accountId e) = some r ∧
    ∃ g, r.groupId = some g ∧ g ∈ db.sharedWith caller.accountId

/-- A copy of the record under another account is as new, and the caller sees it. -/
def OtherCopyInSight (accountId : String) (caller : Caller) (e : Envelope) (db : SqliteDb) :
    Prop :=
  ∃ r ∈ db.records.rows, r.accountId ≠ accountId ∧ OneRow.SameRecord r e ∧ e.clock ≤ r.clock ∧
    db.visible caller.accountId r = true

variable {P} {cfg} {db : SqliteDb} {a : Arrival} {arrivals : List Arrival} {caller : Caller}
  {body : List Envelope} {os : List Sync.Outcome} {e : Envelope} {accountId : String}

/-! ## The row that won -/

theorem route_ne_stale {now : ℤ} {t : Tables} :
    Sync.route P cfg caller now t e ≠ .error .stale := by
  unfold Sync.route Sync.refuse
  split_ifs with hclock hsize
  · simp
  · simp
  · cases e.keyRef with
    | personal => simp
    | group groupId =>
      dsimp only
      split_ifs <;> simp

theorem exists_row_of_settled (h : Sync.Settled accountId e db) :
    ∃ r, db.records.find? (recordKey accountId e) = some r ∧ e.clock ≤ r.clock := by
  unfold Sync.Settled Supersedes at h
  push Not at h
  obtain ⟨r, hr, hle⟩ := h
  exact ⟨r, hr, hle⟩

theorem settled_serve (h : Sync.Settled accountId e db) :
    Sync.Settled accountId e (serve P cfg db a) := by
  apply Program.run_invariant (I := Sync.Settled accountId e) _ _ h
  intro c s hs
  by_cases hc : writes c = some .records
  · obtain ⟨accountId', e', rfl⟩ := eq_putEnvelope_of_writes hc
    exact Sync.settled_putEnvelope hs
  · unfold Sync.Settled
    rw [(exec_frame P a.now c s).records hc]
    exact hs

/-- An envelope answered with `Stale` was routed to some account, and its row there stays at
least as new. -/
theorem settled_of_answeredStale (h : AnsweredStale P cfg arrivals a caller body os e)
    (later : List Arrival) : ∃ accountId,
      Sync.route P cfg caller a.now (reached P cfg arrivals).toTables e = .ok accountId ∧
        Sync.Settled accountId e (reached P cfg (arrivals ++ a :: later)) := by
  have hos : Sync.outcomes P cfg caller a.now body (reached P cfg arrivals) =
      (.ok os, (Sync.outcomes P cfg caller a.now body (reached P cfg arrivals)).2) :=
    Prod.ext h.answers rfl
  have hshares := Sync.shares_of_outcomes hos
  obtain ⟨before, os₁, db₁, db₂, hbefore, ho⟩ := Traversal.Visits.of_mem_zip hos h.stale
  cases hroute : Sync.route P cfg caller a.now (reached P cfg arrivals).toTables e with
  | error reason =>
    have hroute' := (Sync.route_congr (Sync.shares_of_outcomes hbefore)).trans hroute
    rw [Sync.outcome_of_error hroute'] at ho
    obtain rfl : reason = .stale := Except.error.inj (Except.ok.inj (congrArg Prod.fst ho))
    exact absurd hroute route_ne_stale
  | ok accountId =>
    refine ⟨accountId, rfl, ?_⟩
    have hsettled : Sync.Settled accountId e (reached P cfg (arrivals ++ [a])) := by
      rw [reached_snoc, serve_push h.push, Sync.afterPush_of_outcomes hos]
      exact Sync.allSettled_of_outcomes hos e (List.of_mem_zip h.stale).1 accountId
        ((Sync.route_congr hshares).trans hroute)
    rw [reached_append_cons]
    exact History.run_invariant hsettled (fun _ _ => settled_serve) later

/-! ## What the caller pulls -/

theorem resolvable_iff : Resolvable P cfg caller e (reached P cfg arrivals) ↔
    ∃ r ∈ (reached P cfg arrivals).records.rows, OneRow.SameRecord r e ∧ e.clock ≤ r.clock ∧
      (reached P cfg arrivals).visible caller.accountId r = true := by
  have hwf : WellFormed (reached P cfg arrivals) := wellFormed_reached arrivals
  have hdecode : ∀ r ∈ (reached P cfg arrivals).records.rows, ∃ e, P.envelopeFromRow r = .ok e :=
    fun _ => Fidelity.envelope_of_row
  constructor
  · intro h
    obtain ⟨e', hdelivers, hkind, hid, hle⟩ := h 0
    obtain ⟨r, hr, hvis, _, hdec⟩ := (delivers_iff hwf hdecode).mp hdelivers
    obtain ⟨hid', hkind', _, hclock, _⟩ := envelopeFromRow_columns hdec
    refine ⟨r, hr, ⟨?_, hid'.symm.trans hid⟩, hclock ▸ hle, hvis⟩
    rw [RecordKind.eq_asStr_of_parse hkind', hkind]
  · rintro ⟨r, hr, ⟨hkind, hid⟩, hle, hvis⟩ now
    obtain ⟨e', hdec⟩ := hdecode r hr
    obtain ⟨hid', hkind', _, hclock, _⟩ := envelopeFromRow_columns hdec
    refine ⟨e', (delivers_iff hwf hdecode).mpr ⟨r, hr, hvis, hwf.seq_pos r hr, hdec⟩, ?_,
      hid'.trans hid, hclock ▸ hle⟩
    rw [hkind, RecordKind.parse_asStr] at hkind'
    exact (Option.some.inj hkind').symm

/-- `Stale` can be resolved by pulling exactly if the caller sees the row that won, or another
account's copy that is as new. -/
theorem staleResolvable_iff (P : Platform) (cfg : Config) (arrivals : List Arrival) (a : Arrival)
    (later : List Arrival) (caller : Caller) (body : List Envelope) (os : List Sync.Outcome)
    (e : Envelope) (h : AnsweredStale P cfg arrivals a caller body os e) :
    Resolvable P cfg caller e (reached P cfg (arrivals ++ a :: later)) ↔
      ∃ accountId,
        Sync.route P cfg caller a.now (reached P cfg arrivals).toTables e = .ok accountId ∧
          (WinnerInSight accountId caller e (reached P cfg (arrivals ++ a :: later)) ∨
            OtherCopyInSight accountId caller e (reached P cfg (arrivals ++ a :: later))) := by
  obtain ⟨accountId, hroute, hsettled⟩ := settled_of_answeredStale h later
  obtain ⟨winner, hwinner, hle⟩ := exists_row_of_settled hsettled
  obtain ⟨hmem, hkey⟩ := KeyedTable.find?_eq_some.mp hwinner
  rw [resolvable_iff]
  constructor
  · rintro ⟨r, hr, hsame, hnew, hvis⟩
    refine ⟨accountId, hroute, ?_⟩
    by_cases haccount : r.accountId = accountId
    · obtain rfl : r = winner := KeyedTable.eq_of_key_eq _ hr hmem
        ((Prod.ext haccount (Prod.ext hsame.1 hsame.2)).trans hkey.symm)
      rcases Tables.visible_iff.mp hvis with howner | hlabel
      · exact Or.inl (Or.inl (haccount.symm.trans howner))
      · exact Or.inl (Or.inr ⟨r, hwinner, hlabel⟩)
    · exact Or.inr ⟨r, hr, haccount, hsame, hnew, hvis⟩
  · rintro ⟨accountId', hroute', hsight⟩
    obtain rfl : accountId = accountId' := Except.ok.inj (hroute.symm.trans hroute')
    have hsame : OneRow.SameRecord winner e := Prod.mk.inj (Prod.mk.inj hkey).2
    rcases hsight with (howner | ⟨r, hr, hlabel⟩) | ⟨r, hr, _, hsame', hnew, hvis⟩
    · refine ⟨winner, hmem, hsame, hle, Tables.visible_iff.mpr (Or.inl ?_)⟩
      exact (congrArg Prod.fst hkey).trans howner
    · obtain rfl : winner = r := Option.some.inj (hwinner.symm.trans hr)
      exact ⟨winner, hmem, hsame, hle, Tables.visible_iff.mpr (Or.inr hlabel)⟩
    · exact ⟨r, hr, hsame', hnew, hvis⟩

section Runs

open Reference

def adaFirst (label : Option String) : List Arrival := accounts ++ [
  ⟨1, .createShare ⟨"ada"⟩ ⟨"g", "bob", "wrapped"⟩⟩,
  ⟨2, .push ⟨"ada"⟩ [host "h" (.group "g") label 5]⟩]

def older : Envelope := host "h" (.group "g") (some "g") 4

def bobPushes : Arrival := ⟨3, .push ⟨"bob"⟩ [older]⟩

theorem answeredStale_older (label : Option String)
    (h : (Sync.outcomes .reference config ⟨"bob"⟩ 3 [older]
      (reached .reference config (adaFirst label))).1 = .ok [.error .stale]) :
    AnsweredStale .reference config (adaFirst label) bobPushes ⟨"bob"⟩ [older] [.error .stale]
      older where
  push := rfl
  answers := h
  stale := List.mem_singleton.mpr rfl

/-- Without a label Bob sees nothing. -/
theorem run_unlabelled :
    (Sync.outcomes .reference config ⟨"bob"⟩ 3 [older]
      (reached .reference config (adaFirst none))).1 = .ok [.error .stale] ∧
    ∀ r ∈ (reached .reference config (adaFirst none ++ [bobPushes])).records.rows,
      (reached .reference config (adaFirst none ++ [bobPushes])).visible "bob" r = false := by
  decide +kernel

/-- He never learns what his version lost to. -/
theorem lost_to_nothing :
    ¬ ∀ (P : Platform) (cfg : Config) (arrivals : List Arrival) (a : Arrival) (caller : Caller)
      (body : List Envelope) (os : List Sync.Outcome) (e : Envelope),
      AnsweredStale P cfg arrivals a caller body os e →
        Resolvable P cfg caller e (reached P cfg (arrivals ++ [a])) := by
  intro h
  obtain ⟨hstale, hnone⟩ := run_unlabelled
  have hresolvable := h _ _ _ _ _ _ _ _ (answeredStale_older none hstale)
  obtain ⟨r, hr, _, _, hvis⟩ := resolvable_iff.mp hresolvable
  rw [hnone r hr] at hvis
  cases hvis

def winner : RecordEntry :=
  Platform.reference.recordEntry "ada" (host "h" (.group "g") (some "g") 5) 1

/-- With a label he sees the version that won. -/
theorem run_labelled :
    (Sync.outcomes .reference config ⟨"bob"⟩ 3 [older]
      (reached .reference config (adaFirst (some "g")))).1 = .ok [.error .stale] ∧
    Sync.route .reference config ⟨"bob"⟩ 3
      (reached .reference config (adaFirst (some "g"))).toTables older = .ok "ada" ∧
    (reached .reference config (adaFirst (some "g") ++ [bobPushes])).records.find?
      (recordKey "ada" older) = some winner ∧
    "g" ∈ (reached .reference config (adaFirst (some "g") ++ [bobPushes])).sharedWith "bob" := by
  decide +kernel

theorem labelled_winner_learnt :
    Resolvable .reference config ⟨"bob"⟩ older
      (reached .reference config (adaFirst (some "g") ++ [bobPushes])) :=
  (staleResolvable_iff .reference config (adaFirst (some "g")) bobPushes [] ⟨"bob"⟩ [older]
      [.error .stale] older (answeredStale_older (some "g") run_labelled.1)).mpr
    ⟨"ada", run_labelled.2.1,
      Or.inl (Or.inr ⟨winner, run_labelled.2.2.1, "g", rfl, run_labelled.2.2.2⟩)⟩

end Runs

end RemotierSync.Stale
