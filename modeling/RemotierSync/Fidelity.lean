import RemotierSync.Sealing

/-!
# What a pull returns was pushed

Every stored row goes back to one put that the store accepted in an earlier push, and holds all
columns of that put: an edit overwrites the row whole. Such a row decodes to the envelope that was
pushed, so a pull never fails, and what it returns opens as the pushed envelope did. The
associated data leaves out the number, which is all that the server adds.
-/

namespace RemotierSync.Fidelity

open SqliteStore Server Crypto

variable (P : Platform) (cfg : Config)

/-- The push hands the envelope to the store, which answers that it stored it under the number. -/
def Stores (db : SqliteDb) (caller : Caller) (now : ℤ) (body : List Envelope) (e : Envelope)
    (seq : ℤ) : Prop :=
  ∃ before accountId after,
    Sync.filed P cfg caller now db.toTables body = before ++ (accountId, e) :: after ∧
      (putEnvelope P accountId e (puts P db before)).1 = .ok (some seq)

/-- A push of the run accepted the envelope under the number, and reported it. -/
def Accepted (arrivals : List Arrival) (e : Envelope) (seq : ℤ) : Prop :=
  History.Occurred (serve P cfg) .migrated
    (fun db a => ∃ p ∈ a.pushes, e ∈ p.2 ∧ Stores P cfg db p.1 a.now p.2 e seq ∧
      ∃ resp, Sync.answered P cfg p.1 a.now p.2 db resp ∧
        ⟨e.id, e.kind.asStr, seq⟩ ∈ resp.accepted)
    arrivals

variable {P} {cfg} {db : SqliteDb} {a : Arrival} {arrivals : List Arrival} {r : RecordEntry}

theorem stores_of_new_row {caller : Caller} {now : ℤ} {body : List Envelope}
    (hdb : WellFormed db) (hr : r ∈ (Sync.afterPush P cfg caller now body db).records.rows)
    (hnew : r ∉ db.records.rows) :
    ∃ e ∈ body, Stores P cfg db caller now body e r.seq ∧
      r = P.recordEntry r.accountId e r.seq ∧
      ∃ resp, Sync.answered P cfg caller now body db resp ∧
        ⟨e.id, e.kind.asStr, r.seq⟩ ∈ resp.accepted := by
  obtain ⟨_, resp, _, _, hresp, hacc⟩ := Sync.new_row_of_push hdb hr hnew
  rw [(Sync.push_answered hresp).1] at hr
  obtain ⟨before, w, after, hfiled, hput, hrow⟩ := (write_of_mem_puts hr).resolve_left hnew
  rw [hrow] at hacc
  refine ⟨w.2, (Sync.routed_of_filed hfiled).1, ⟨before, w.1, after, hfiled, hput⟩, ?_, resp,
    hresp, hacc⟩
  have haccount : r.accountId = w.1 := congrArg RecordEntry.accountId hrow
  rw [haccount]
  exact hrow

/-- Every stored row is an accepted envelope, in every column. -/
theorem accepted_of_row (hr : r ∈ (reached P cfg arrivals).records.rows) :
    ∃ e, Accepted P cfg arrivals e r.seq ∧ r = P.recordEntry r.accountId e r.seq := by
  induction arrivals using List.reverseRecOn with
  | nil => simp [reached] at hr
  | append_singleton arrivals a ih =>
    rw [reached_snoc] at hr
    by_cases hold : r ∈ (reached P cfg arrivals).records.rows
    · obtain ⟨e, haccepted, hrow⟩ := ih hold
      exact ⟨e, haccepted.append _, hrow⟩
    · obtain ⟨caller, body, hpush, hr⟩ := exists_push_of_new_row hr hold
      obtain ⟨e, he, hstores, hrow, hreport⟩ :=
        stores_of_new_row (wellFormed_reached arrivals) hr hold
      exact ⟨e, History.occurred_snoc.mpr (Or.inr ⟨_, hpush, he, hstores, hreport⟩), hrow⟩

theorem envelope_of_row (hr : r ∈ (reached P cfg arrivals).records.rows) :
    ∃ e, P.envelopeFromRow r = .ok e := by
  obtain ⟨e, _, hrow⟩ := accepted_of_row hr
  rw [hrow]
  exact ⟨_, envelopeFromRow_recordEntry⟩

theorem mapM_isOk {α β ε : Type} {f : α → Except ε β} {l : List α}
    (h : ∀ a ∈ l, ∃ b, f a = .ok b) : ∃ bs, l.mapM f = .ok bs := by
  induction l with
  | nil => exact ⟨[], rfl⟩
  | cons a l ih =>
    obtain ⟨b, hb⟩ := h a List.mem_cons_self
    obtain ⟨bs, hbs⟩ := ih (fun x hx => h x (List.mem_cons_of_mem a hx))
    exact ⟨b :: bs, by rw [List.mapM_cons, hb, hbs]; rfl⟩

theorem pull_isOk {now cursor : ℤ} {caller : Caller}
    (h : ∀ r ∈ db.pullRows caller.accountId cursor, ∃ e, P.envelopeFromRow r = .ok e) :
    ∃ resp, (Program.run (exec P now) (Sync.pull cfg caller cursor) db).1 = .ok resp := by
  have hrows : ∀ r ∈ (db.pullRows caller.accountId cursor).take (cfg.maxPage + 1).toNat,
      ∃ e, P.envelopeFromRow r = .ok e :=
    fun r hr => h r (List.mem_of_mem_take hr)
  obtain ⟨es, hes⟩ := mapM_isOk hrows
  unfold Sync.pull
  rw [Program.run_bind, run_ask, Sync.exec_pull (Sync.maxPage_succ_nonneg cfg), hes]
  exact ⟨_, rfl⟩

variable (P) (cfg) (arrivals) in
theorem pull_reached_isOk (now cursor : ℤ) (caller : Caller) :
    ∃ resp, (Program.run (exec P now) (Sync.pull cfg caller cursor)
      (reached P cfg arrivals)).1 = .ok resp :=
  pull_isOk (fun _ hr => envelope_of_row (Tables.mem_pullRows.mp hr).1.1)

theorem accepted_of_pull {now cursor : ℤ} {caller : Caller} {resp : PullResponse} {e : Envelope}
    (h : (Program.run (exec P now) (Sync.pull cfg caller cursor)
      (reached P cfg arrivals)).1 = .ok resp) (he : e ∈ resp.envelopes) :
    ∃ pushed, Accepted P cfg arrivals pushed e.seq ∧ e.SameVersion pushed := by
  obtain ⟨r, hr, hdec⟩ := Sync.exists_row_of_decodes (Sync.pageOf_of_pull h).decodes he
  obtain ⟨pushed, haccepted, hrow⟩ :=
    accepted_of_row (Tables.mem_pullRows.mp (List.mem_of_mem_take hr)).1.1
  have hdec' : P.envelopeFromRow r = .ok { pushed with seq := r.seq } := by
    rw [hrow]
    exact envelopeFromRow_recordEntry
  obtain rfl := Except.ok.inj (hdec.symm.trans hdec')
  exact ⟨pushed, haccepted, rfl⟩

theorem opens_as_pushed {A : Aead} {nonce : XNonce} {key : ContentKey} {plaintext : List UInt8}
    {e e' : Envelope} (hsame : e.SameVersion e')
    (hseal : sealPayload A nonce key e'.aad plaintext = .ok (e'.nonce, e'.ciphertext)) :
    openPayload A key e.aad e.nonce e.ciphertext = .ok plaintext := by
  obtain ⟨haad, hnonce, hciphertext⟩ := hsame.sealed
  rw [haad, hnonce, hciphertext]
  exact openPayload_of_sealPayload hseal

/-- After any run a pull of any account answers, with envelopes that were accepted whole and open
to what they were sealed over. -/
theorem pull_faithful (P : Platform) (cfg : Config) (arrivals : List Arrival) (now cursor : ℤ)
    (caller : Caller) :
    ∃ resp, (Program.run (exec P now) (Sync.pull cfg caller cursor)
        (reached P cfg arrivals)).1 = .ok resp ∧
      ∀ e ∈ resp.envelopes, ∃ pushed, Accepted P cfg arrivals pushed e.seq ∧
        e.SameVersion pushed ∧
        ∀ A nonce key plaintext,
          sealPayload A nonce key pushed.aad plaintext = .ok (pushed.nonce, pushed.ciphertext) →
            openPayload A key e.aad e.nonce e.ciphertext = .ok plaintext := by
  obtain ⟨resp, hresp⟩ := pull_reached_isOk P cfg arrivals now cursor caller
  refine ⟨resp, hresp, ?_⟩
  intro e he
  obtain ⟨pushed, haccepted, hsame⟩ := accepted_of_pull hresp he
  exact ⟨pushed, haccepted, hsame, fun _ _ _ _ => opens_as_pushed hsame⟩

end RemotierSync.Fidelity
