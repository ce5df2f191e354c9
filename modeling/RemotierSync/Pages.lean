import RemotierSync.Fidelity

/-!
# A pull of all pages

Pulls follow the cursor from page to page until one answers that nothing is left. On a database
whose rows decode they come to an end, and together return the envelope of every row that the
account sees behind the cursor from which they set out, once and in the order of the log, and
nothing else. A page says that there is more exactly if it leaves a row behind its cursor.
-/

namespace RemotierSync.Pages

open SqliteStore

variable (P : Platform) (cfg : Config) (caller : Caller) (now : ℤ) (db : SqliteDb)

/-- What at most so many pulls from the cursor on return, if one says that nothing is left. -/
def pullAll : ℕ → ℤ → Option (List Envelope)
  | 0, _ => none
  | pages + 1, cursor =>
    match (Program.run (exec P now) (Sync.pull cfg caller cursor) db).1 with
    | .ok resp =>
      if resp.more then (pullAll pages resp.cursor).map (fun rest => resp.envelopes ++ rest)
      else some resp.envelopes
    | .error _ => none

/-- The answers to these pulls, page by page. -/
def walk : ℕ → ℤ → Option (List PullResponse)
  | 0, _ => none
  | pages + 1, cursor =>
    match (Program.run (exec P now) (Sync.pull cfg caller cursor) db).1 with
    | .ok resp =>
      if resp.more then (walk pages resp.cursor).map (fun rest => resp :: rest)
      else some [resp]
    | .error _ => none

def Delivers (cursor : ℤ) (e : Envelope) : Prop :=
  ∃ pages es, pullAll P cfg caller now db pages cursor = some es ∧ e ∈ es

/-- The walk ends, with a page more at the most than there are rows, and returns the rows that
the account sees behind the cursor, in the order of the log. -/
structure Drains (cursor : ℤ) (resps : List PullResponse) : Prop where
  ends : ∀ pages, (db.pullRows caller.accountId cursor).length < pages →
    walk P cfg caller now db pages cursor = some resps
  increasing : ((resps.flatMap PullResponse.envelopes).map Envelope.seq).Pairwise (· < ·)
  mem_iff : ∀ e, e ∈ resps.flatMap PullResponse.envelopes ↔ ∃ r ∈ db.records.rows,
    db.visible caller.accountId r = true ∧ cursor < r.seq ∧ Sync.Decodes P r e
  more_iff : ∀ resp ∈ resps, resp.more = true ↔
    ∃ r ∈ db.records.rows, db.visible caller.accountId r = true ∧ resp.cursor < r.seq

variable {P} {cfg} {caller} {now} {db} {cursor : ℤ} {pages : ℕ} {es : List Envelope}
  {e : Envelope} {resp : PullResponse} {resps : List PullResponse}

theorem pullAll_eq_walk : pullAll P cfg caller now db pages cursor =
    (walk P cfg caller now db pages cursor).map
      (fun resps => resps.flatMap PullResponse.envelopes) := by
  induction pages generalizing cursor with
  | zero => rfl
  | succ pages ih =>
    rw [pullAll, walk]
    cases (Program.run (exec P now) (Sync.pull cfg caller cursor) db).1 with
    | error err => rfl
    | ok resp =>
      cases hmore : resp.more with
      | false => simp [hmore]
      | true => simp [hmore, ih, Function.comp_def]

theorem walk_succ_of_drained
    (h : (Program.run (exec P now) (Sync.pull cfg caller cursor) db).1 = .ok resp)
    (hmore : resp.more = false) : walk P cfg caller now db (pages + 1) cursor = some [resp] := by
  rw [walk, h]
  simp [hmore]

theorem walk_succ_of_more
    (h : (Program.run (exec P now) (Sync.pull cfg caller cursor) db).1 = .ok resp)
    (hmore : resp.more = true) : walk P cfg caller now db (pages + 1) cursor =
      (walk P cfg caller now db pages resp.cursor).map (fun rest => resp :: rest) := by
  rw [walk, h]
  simp [hmore]

/-! ## One page -/

theorem pullRows_of_page (hd : ChangeLog.Distinct RecordEntry.seq db.records.rows)
    (h : Sync.PageOf P cfg cursor (db.pullRows caller.accountId cursor) resp) :
    db.pullRows caller.accountId resp.cursor =
      (db.pullRows caller.accountId cursor).drop cfg.maxPage.toNat := by
  rw [h.cursor_eq]
  exact ChangeLog.after_advance (hd.filter _) _

theorem more_iff_of_page (hd : ChangeLog.Distinct RecordEntry.seq db.records.rows)
    (h : Sync.PageOf P cfg cursor (db.pullRows caller.accountId cursor) resp) :
    resp.more = true ↔
      ∃ r ∈ db.records.rows, db.visible caller.accountId r = true ∧ resp.cursor < r.seq := by
  have hleft : resp.more = true ↔ db.pullRows caller.accountId resp.cursor ≠ [] := by
    rw [h.more_iff, pullRows_of_page hd h, Ne, List.drop_eq_nil_iff, not_le]
  rw [hleft, ← List.length_pos_iff, List.length_pos_iff_exists_mem]
  simp only [Tables.mem_pullRows, and_assoc]

theorem decodes_of_drained
    (h : Sync.PageOf P cfg cursor (db.pullRows caller.accountId cursor) resp)
    (hmore : resp.more = false) :
    List.Forall₂ (Sync.Decodes P) (db.pullRows caller.accountId cursor) resp.envelopes := by
  have hdec := h.decodes
  rwa [List.take_of_length_le (h.length_le hmore)] at hdec

theorem mem_iff_of_decodes
    (h : List.Forall₂ (Sync.Decodes P) (db.pullRows caller.accountId cursor) es) :
    e ∈ es ↔ ∃ r ∈ db.records.rows,
      db.visible caller.accountId r = true ∧ cursor < r.seq ∧ Sync.Decodes P r e := by
  constructor
  · intro he
    obtain ⟨r, hr, hdec⟩ := Sync.exists_row_of_decodes h he
    obtain ⟨⟨hmem, hvis⟩, hcursor⟩ := Tables.mem_pullRows.mp hr
    exact ⟨r, hmem, hvis, hcursor, hdec⟩
  · rintro ⟨r, hmem, hvis, hcursor, hrow⟩
    obtain ⟨e', he', hrow'⟩ := Sync.exists_envelope_of_decodes h
      (Tables.mem_pullRows.mpr ⟨⟨hmem, hvis⟩, hcursor⟩)
    obtain rfl : e = e' := Except.ok.inj (hrow.symm.trans hrow')
    exact he'

/-! ## The walk -/

theorem decodes_of_walk (hd : ChangeLog.Distinct RecordEntry.seq db.records.rows)
    (h : walk P cfg caller now db pages cursor = some resps) :
    List.Forall₂ (Sync.Decodes P) (db.pullRows caller.accountId cursor)
        (resps.flatMap PullResponse.envelopes) ∧
      ∀ resp ∈ resps, resp.more = true ↔
        ∃ r ∈ db.records.rows, db.visible caller.accountId r = true ∧ resp.cursor < r.seq := by
  induction pages generalizing cursor resps with
  | zero => cases h
  | succ pages ih =>
    cases hrun : (Program.run (exec P now) (Sync.pull cfg caller cursor) db).1 with
    | error err =>
      rw [walk, hrun] at h
      cases h
    | ok resp =>
      have hpage := Sync.pageOf_of_pull hrun
      have hiff := more_iff_of_page hd hpage
      cases hmore : resp.more with
      | false =>
        rw [walk_succ_of_drained hrun hmore] at h
        obtain rfl := Option.some.inj h
        simp only [List.flatMap_cons, List.flatMap_nil, List.append_nil, List.mem_singleton]
        exact ⟨decodes_of_drained hpage hmore, fun resp' hresp' => hresp' ▸ hiff⟩
      | true =>
        rw [walk_succ_of_more hrun hmore, Option.map_eq_some_iff] at h
        obtain ⟨rest, hrest, rfl⟩ := h
        obtain ⟨hdec, hrestiff⟩ := ih hrest
        rw [pullRows_of_page hd hpage] at hdec
        rw [List.flatMap_cons,
          ← List.take_append_drop cfg.maxPage.toNat (db.pullRows caller.accountId cursor)]
        exact ⟨List.rel_append hpage.decodes hdec, List.forall_mem_cons.mpr ⟨hiff, hrestiff⟩⟩

/-- Where the rows behind the cursor decode, every pull answers and leaves fewer of them. -/
theorem exists_walk (cfg : Config) (caller : Caller) (now cursor : ℤ)
    (hd : ChangeLog.Distinct RecordEntry.seq db.records.rows)
    (hdec : ∀ r ∈ db.pullRows caller.accountId cursor, ∃ e, P.envelopeFromRow r = .ok e) :
    ∃ resps, ∀ pages, (db.pullRows caller.accountId cursor).length < pages →
      walk P cfg caller now db pages cursor = some resps := by
  have hpos : 0 < cfg.maxPage.toNat := by
    have := cfg.maxPage_pos
    omega
  induction hlength : (db.pullRows caller.accountId cursor).length using Nat.strong_induction_on
    generalizing cursor with
  | _ length ih =>
    obtain ⟨resp, hresp⟩ : ∃ resp, (Program.run (exec P now) (Sync.pull cfg caller cursor) db).1 =
      .ok resp := Fidelity.pull_isOk hdec
    have hpage := Sync.pageOf_of_pull hresp
    cases hmore : resp.more with
    | false =>
      refine ⟨[resp], ?_⟩
      intro pages hpages
      obtain ⟨pages, rfl⟩ := Nat.exists_eq_succ_of_ne_zero (Nat.ne_zero_of_lt hpages)
      exact walk_succ_of_drained hresp hmore
    | true =>
      have hleft := pullRows_of_page hd hpage
      have hlong := hpage.more_iff.mp hmore
      have hfewer : (db.pullRows caller.accountId resp.cursor).length < length := by
        rw [hleft, List.length_drop]
        omega
      obtain ⟨rest, hrest⟩ := ih _ hfewer resp.cursor
        (fun r hr => hdec r (List.mem_of_mem_drop (hleft ▸ hr))) rfl
      refine ⟨resp :: rest, ?_⟩
      intro pages hpages
      obtain ⟨pages, rfl⟩ := Nat.exists_eq_succ_of_ne_zero (Nat.ne_zero_of_lt hpages)
      rw [walk_succ_of_more hresp hmore, hrest pages (by omega)]
      rfl

theorem decodes_of_pullAll (hdb : WellFormed db)
    (h : pullAll P cfg caller now db pages cursor = some es) :
    List.Forall₂ (Sync.Decodes P) (db.pullRows caller.accountId cursor) es := by
  rw [pullAll_eq_walk, Option.map_eq_some_iff] at h
  obtain ⟨resps, hwalk, rfl⟩ := h
  exact (decodes_of_walk hdb.distinct hwalk).1

theorem exists_pullAll (hdb : WellFormed db)
    (hdec : ∀ r ∈ db.records.rows, ∃ e, P.envelopeFromRow r = .ok e) (cursor : ℤ) :
    ∃ pages es, pullAll P cfg caller now db pages cursor = some es := by
  obtain ⟨resps, hwalk⟩ := exists_walk cfg caller now cursor hdb.distinct
    (fun r hr => hdec r (Tables.mem_pullRows.mp hr).1.1)
  refine ⟨(db.pullRows caller.accountId cursor).length + 1,
    resps.flatMap PullResponse.envelopes, ?_⟩
  rw [pullAll_eq_walk, hwalk _ (Nat.lt_succ_self _), Option.map_some]

/-- An envelope is delivered exactly if it is that of a row which the account sees behind the
cursor. -/
theorem delivers_iff (hdb : WellFormed db)
    (hdec : ∀ r ∈ db.records.rows, ∃ e, P.envelopeFromRow r = .ok e) :
    Delivers P cfg caller now db cursor e ↔ ∃ r ∈ db.records.rows,
      db.visible caller.accountId r = true ∧ cursor < r.seq ∧ Sync.Decodes P r e := by
  constructor
  · rintro ⟨pages, es, hpull, he⟩
    exact (mem_iff_of_decodes (decodes_of_pullAll hdb hpull)).mp he
  · intro hrow
    obtain ⟨pages, es, hpull⟩ := exists_pullAll hdb hdec cursor
    exact ⟨pages, es, hpull, (mem_iff_of_decodes (decodes_of_pullAll hdb hpull)).mpr hrow⟩

/-- In every state that a run reaches, every walk drains the log. -/
theorem walk_drains (P : Platform) (cfg : Config) (arrivals : List Arrival) (caller : Caller)
    (now cursor : ℤ) :
    ∃ resps, Drains P cfg caller now (Server.reached P cfg arrivals) cursor resps := by
  have hdb : WellFormed (Server.reached P cfg arrivals) := Server.wellFormed_reached arrivals
  have hd := hdb.distinct
  obtain ⟨resps, hwalk⟩ := exists_walk cfg caller now cursor hd
    (fun r hr => Fidelity.envelope_of_row (Tables.mem_pullRows.mp hr).1.1)
  obtain ⟨hdecodes, hmore⟩ := decodes_of_walk hd (hwalk _ (Nat.lt_succ_self _))
  refine ⟨resps, hwalk, ?_, fun e => mem_iff_of_decodes hdecodes, hmore⟩
  rw [Sync.map_seq_of_decodes hdecodes, List.pairwise_map]
  exact ChangeLog.after_pairwise_lt (hd.filter _)

end RemotierSync.Pages
