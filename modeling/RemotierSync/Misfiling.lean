import RemotierSync.Reference
import RemotierSync.Library.Interleaving

/-!
# Pushes that interleave with shares

Requests served at the same time, one store call a turn. A push asks whether its caller may write
to a group, then who owns the group, and keeps both answers for the rest of its batch. What a
member pushes is filed under the owner exactly if the group still has a share when the push asks
for the owner: a removal between the two questions turns the member into its own owner.
-/

namespace RemotierSync.Misfiling

open Program Pool SqliteStore

/-! ## The questions of a push -/

section Questions

variable (userId groupId : String)

/-- Before the push knows the owner it files nothing keyed to the group. -/
def Ignorant : Call → Prop
  | .putEnvelope _ e => e.keyRef ≠ .group groupId
  | .shareOwner asked => asked ≠ groupId
  | _ => True

/-- Once it knows, it files what is keyed to the group under the owner, and does not ask again. -/
def Informed (owner : Option String) : Call → Prop
  | .putEnvelope accountId e => e.keyRef = .group groupId → accountId = owner.getD userId
  | .shareOwner asked => asked ≠ groupId
  | _ => True

/-- What is left of a push asks for the owner before it files, unless it has the answer. -/
def Proceeds {α : Type} (known : Option (Option String)) (p : Handler α) : Prop :=
  match known with
  | none => Until (.shareOwner groupId) (Ignorant groupId) (Informed userId groupId) p
  | some owner => Issues (Informed userId groupId owner) p

variable {userId groupId} {α : Type} {known : Option (Option String)} {st : Sync.PushState}
  {f : Sync.PushState → Handler α} {e : Envelope} {cfg : Config} {now : ℤ}

theorem proceeds_call {c : Call} {next : c.Ret → Handler α} (hne : c ≠ .shareOwner groupId)
    (hbefore : known = none → Ignorant groupId c)
    (hafter : ∀ owner, known = some owner → Informed userId groupId owner c)
    (hnext : ∀ r, Proceeds userId groupId known (next r)) :
    Proceeds userId groupId known (.call c next) := by
  cases known with
  | none => exact (until_call hne).mpr ⟨hbefore rfl, hnext⟩
  | some owner => exact ⟨hafter owner rfl, hnext⟩

theorem proceeds_store (st : Sync.PushState) {accountId : String}
    (hf : ∀ st, Proceeds userId groupId (st.owners.lookup groupId) (f st))
    (hkey : e.keyRef = .group groupId →
      ∃ owner, st.owners.lookup groupId = some owner ∧ accountId = owner.getD userId) :
    Proceeds userId groupId (st.owners.lookup groupId) (Sync.store accountId e st >>= f) := by
  refine proceeds_call (c := .putEnvelope accountId e) (by simp) ?_ ?_ ?_
  · intro hnone hgroup
    obtain ⟨owner, hsome, _⟩ := hkey hgroup
    rw [hnone] at hsome
    cases hsome
  · intro owner hsome hgroup
    obtain ⟨owner', hsome', rfl⟩ := hkey hgroup
    rw [Option.some.inj (hsome.symm.trans hsome')]
  · intro r
    cases r with
    | none => exact hf { st with report := st.report.reject e .stale }
    | some seq => exact hf { st with report := st.report.accept e seq }

/-- The owner is asked for once, and the envelope filed under the answer. -/
theorem proceeds_askOwner {asked : String} {writable : List (String × Bool)}
    (hf : ∀ st, Proceeds userId groupId (st.owners.lookup groupId) (f st))
    (hkey : e.keyRef = .group asked) :
    Proceeds userId groupId (st.owners.lookup groupId)
      ((Sync.askOnce st.owners asked (ask (.shareOwner asked)) >>= fun p =>
        Sync.store (p.1.getD userId) e { st with writable := writable, owners := p.2 }) >>= f) := by
  unfold Sync.askOnce
  cases hknown : st.owners.lookup asked with
  | some owner =>
    refine proceeds_store { st with writable := writable } hf ?_
    intro hgroup
    obtain rfl : asked = groupId := KeyRef.group.inj (hkey.symm.trans hgroup)
    exact ⟨owner, hknown, rfl⟩
  | none =>
    have hstore (owner : Option String) : Proceeds userId groupId
        (((asked, owner) :: st.owners).lookup groupId)
        (Sync.store (owner.getD userId) e
          { st with writable := writable, owners := (asked, owner) :: st.owners } >>= f) := by
      refine proceeds_store
        { st with writable := writable, owners := (asked, owner) :: st.owners } hf ?_
      intro hgroup
      obtain rfl : asked = groupId := KeyRef.group.inj (hkey.symm.trans hgroup)
      exact ⟨owner, by simp, rfl⟩
    by_cases hasked : asked = groupId
    · subst hasked
      rw [hknown]
      refine until_call_self.mpr (fun owner => ?_)
      have hstore := hstore owner
      rw [List.lookup_cons_self] at hstore
      exact hstore
    · have hsame (owner : Option String) : ((asked, owner) :: st.owners).lookup groupId =
          st.owners.lookup groupId := by
        rw [List.lookup_cons, beq_false_of_ne (Ne.symm hasked)]
      refine proceeds_call (c := .shareOwner asked) (by simpa using hasked) (fun _ => hasked)
        (fun _ _ => hasked) (fun owner => ?_)
      have hstore := hstore owner
      rw [hsame] at hstore
      exact hstore

theorem proceeds_pushOne (st : Sync.PushState)
    (hf : ∀ st, Proceeds userId groupId (st.owners.lookup groupId) (f st)) :
    Proceeds userId groupId (st.owners.lookup groupId)
      (Sync.pushOne cfg ⟨userId⟩ now e st >>= f) := by
  unfold Sync.pushOne
  cases Sync.refuse cfg e now with
  | some reason => exact hf { st with report := st.report.reject e reason }
  | none =>
    cases hkey : e.keyRef with
    | personal => exact proceeds_store st hf (by simp [hkey])
    | group asked =>
      have hallowed (allowed : Bool) (writable : List (String × Bool)) :
          Proceeds userId groupId (st.owners.lookup groupId)
            ((if allowed then
                Sync.askOnce st.owners asked (ask (.shareOwner asked)) >>= fun p =>
                  Sync.store (p.1.getD userId) e { st with writable := writable, owners := p.2 }
              else return { st with
                writable := writable
                report := st.report.reject e .notAMember }) >>= f) := by
        cases allowed with
        | true => exact proceeds_askOwner hf hkey
        | false => exact hf { st with
            writable := writable
            report := st.report.reject e .notAMember }
      dsimp only
      unfold Sync.askOnce
      cases st.writable.lookup asked with
      | some allowed => exact hallowed allowed st.writable
      | none =>
        exact proceeds_call (c := .canWriteGroup userId asked) (by simp) (fun _ => trivial)
          (fun _ _ => trivial) (fun allowed => hallowed allowed ((asked, allowed) :: st.writable))

theorem proceeds_pushAll (body : List Envelope) (st : Sync.PushState)
    (hf : ∀ st, Proceeds userId groupId (st.owners.lookup groupId) (f st)) :
    Proceeds userId groupId (st.owners.lookup groupId)
      (Sync.pushAll cfg ⟨userId⟩ now body st >>= f) := by
  induction body generalizing st with
  | nil => exact hf st
  | cons e rest ih =>
    unfold Sync.pushAll
    rw [Program.bind_assoc]
    exact proceeds_pushOne st ih

theorem until_push (body : List Envelope) :
    Until (.shareOwner groupId) (Ignorant groupId) (Informed userId groupId)
      (Program.discard (Sync.push cfg ⟨userId⟩ now body)) := by
  unfold Program.discard Sync.push
  rw [Program.bind_assoc]
  change Proceeds userId groupId (Sync.PushState.initial.owners.lookup groupId) _
  refine proceeds_pushAll body .initial (fun st => ?_)
  exact proceeds_call (c := .maxSeq userId) (by simp) (fun _ => trivial) (fun _ _ => trivial)
    (fun cursor => by cases st.owners.lookup groupId <;> trivial)

end Questions

/-! ## The turns -/

variable {ι : Type} [DecidableEq ι] (P : Platform) (cfg : Config) (ownerId groupId : String)
  (requests : ι → Arrival) (db : SqliteDb)

abbrev State (ι : Type) := Pool ι Call Call.Ret Error SqliteDb

omit [DecidableEq ι] in
def start : State ι := ⟨db, fun i => Server.act P cfg (requests i)⟩

def reached (turns : List (Turn ι ℤ)) : State ι :=
  History.run (turn (exec P)) (start P cfg requests db) turns

def Happened (Q : State ι → Turn ι ℤ → Prop) (turns : List (Turn ι ℤ)) : Prop :=
  History.Occurred (turn (exec P)) (start P cfg requests db) Q turns

section Turns

omit [DecidableEq ι]

def FindsMember (i : ι) (userId : String) (s : State ι) (t : Turn ι ℤ) : Prop :=
  Makes i (.canWriteGroup userId groupId) s t ∧
    ∃ share ∈ s.store.shares.rows, share.groupId = groupId ∧ share.userId = userId

def FindsShare (i : ι) (s : State ι) (t : Turn ι ℤ) : Prop :=
  Makes i (.shareOwner groupId) s t ∧ ∃ share ∈ s.store.shares.rows, share.groupId = groupId

/-- The request files the envelope, and it is accepted. -/
def Accepts (i : ι) (accountId : String) (e : Envelope) (seq : ℤ) (s : State ι) (t : Turn ι ℤ) :
    Prop :=
  Makes i (.putEnvelope accountId e) s t ∧
    (exec P t.input (.putEnvelope accountId e) s.store).1 = .ok (some seq)

end Turns

/-- After the turns so far a push of another account than the owner, which it has found to be a
member, has an envelope keyed to the group accepted. -/
structure MemberFiles (before : List (Turn ι ℤ)) (t : Turn ι ℤ) (accountId : String) (e : Envelope)
    (seq : ℤ) (i : ι) (userId : String) : Prop where
  push : ∃ body, (requests i).pushes = some (⟨userId⟩, body)
  other : userId ≠ ownerId
  member : Happened P cfg requests db (FindsMember groupId i userId) before
  keyed : e.keyRef = .group groupId
  accepted : Accepts P i accountId e seq (reached P cfg requests db before) t

/-- What members file for the group is stored under the owner. -/
def FiledUnderOwner (turns : List (Turn ι ℤ)) : Prop :=
  ∀ before t after, turns = before ++ t :: after → ∀ accountId e seq i userId,
    MemberFiles P cfg ownerId groupId requests db before t accountId e seq i userId →
      accountId = ownerId ∧
        (reached P cfg requests db (before ++ [t])).store.records.find? (recordKey ownerId e) =
          some (P.recordEntry ownerId e seq)

/-- When the push asked for the owner, the group had a share. -/
def SharedWhenAsked (turns : List (Turn ι ℤ)) : Prop :=
  ∀ before t after, turns = before ++ t :: after → ∀ accountId e seq i userId,
    MemberFiles P cfg ownerId groupId requests db before t accountId e seq i userId →
      Happened P cfg requests db (FindsShare groupId i) before

omit [DecidableEq ι] in
/-- All shares of the group are created by its owner. -/
structure SharedByOwner : Prop where
  stored : ∀ share ∈ db.shares.rows, share.groupId = groupId → share.ownerId = ownerId
  created : ∀ i caller body, (requests i).creates = some (caller, body) →
    body.groupId = groupId → caller.accountId = ownerId

variable {P} {cfg} {ownerId groupId} {requests} {db} {turns : List (Turn ι ℤ)} {i : ι}

/-! ## Who shares the group -/

def SharesAs (ownerId groupId : String) : Call → Prop
  | .putShare sharer shared _ _ => shared = groupId → sharer = ownerId
  | _ => True

def Files : Call → Prop
  | .canWriteGroup .. => True
  | .shareOwner _ => True
  | .putEnvelope .. => True
  | .maxSeq _ => True
  | _ => False

section Issues

variable {caller : Caller} {now : ℤ}

theorem issues_store (accountId : String) (e : Envelope) (st : Sync.PushState) :
    Issues Files (Sync.store accountId e st) := by
  refine ⟨trivial, fun r => ?_⟩
  cases r with
  | none => exact trivial
  | some seq => exact trivial

theorem issues_pushOne (e : Envelope) (st : Sync.PushState) :
    Issues Files (Sync.pushOne cfg caller now e st) := by
  unfold Sync.pushOne
  cases Sync.refuse cfg e now with
  | some reason => exact trivial
  | none =>
    cases e.keyRef with
    | personal => exact issues_store _ _ _
    | group asked =>
      refine issues_bind (Sync.issues_askOnce ((issues_ask _ _).mpr trivial)) ?_
      rintro ⟨allowed, writable⟩
      cases allowed with
      | false => exact trivial
      | true =>
        refine issues_bind (Sync.issues_askOnce ((issues_ask _ _).mpr trivial)) ?_
        exact fun _ => issues_store _ _ _

theorem issues_push (body : List Envelope) : Issues Files (Sync.push cfg caller now body) := by
  have hall (st : Sync.PushState) : Issues Files (Sync.pushAll cfg caller now body st) := by
    induction body generalizing st with
    | nil => exact trivial
    | cons e rest ih => exact issues_bind (issues_pushOne e st) ih
  exact issues_bind (hall _) (fun _ => ⟨trivial, fun _ => trivial⟩)

omit [DecidableEq ι] in
theorem issues_act (h : SharedByOwner ownerId groupId requests db) (i : ι) :
    Issues (SharesAs ownerId groupId) (Server.act P cfg (requests i)) := by
  cases hrequest : (requests i).request with
  | push caller body =>
    unfold Server.act
    rw [hrequest]
    refine issues_discard ((issues_push body).mono (fun c hc => ?_))
    cases c <;> first | exact trivial | exact hc.elim
  | pull caller cursor =>
    unfold Server.act
    rw [hrequest]
    exact ⟨trivial, fun _ => trivial⟩
  | createShare caller body =>
    have howner := h.created i caller body (Arrival.creates_eq_some.mpr hrequest)
    unfold Server.act
    rw [hrequest]
    dsimp only
    unfold Shares.create
    split_ifs
    · exact trivial
    · refine ⟨trivial, fun found => ?_⟩
      cases found with
      | none => exact trivial
      | some account => exact ⟨howner, fun _ => trivial⟩
  | removeShare caller shared userId =>
    unfold Server.act
    rw [hrequest]
    exact ⟨trivial, fun _ => trivial⟩
  | _ =>
    have haccounts : Issues Auth.OnAccounts (Server.act P cfg (requests i)) :=
      Server.onAccounts_act (by simp [Arrival.pushes, hrequest])
        (by simp [Arrival.creates, hrequest]) (by simp [Arrival.removes, hrequest])
        (by simp [hrequest])
    exact haccounts.mono (fun c hc => by cases c <;> first | exact trivial | exact hc.elim)

end Issues

theorem share_of_exec {now : ℤ} {c : Call} {db : SqliteDb} {share : ShareEntry}
    (h : share ∈ (exec P now c db).2.shares.rows) :
    (∃ old ∈ db.shares.rows, old.groupId = share.groupId ∧ old.ownerId = share.ownerId) ∨
      ∃ wrapped, c = .putShare share.ownerId share.groupId share.userId wrapped := by
  cases c with
  | putShare sharer shared userId wrapped =>
    by_cases hok : (db.putShare now sharer shared userId wrapped).1 = .ok ()
    · rcases (Tables.mem_putShare hok).mp h with ⟨hold, _⟩ | hnew
      · exact Or.inl ⟨share, hold, rfl, rfl⟩
      · cases hfind : db.shares.find? (shared, userId) with
        | none =>
          rw [hfind] at hnew
          rw [hnew]
          exact Or.inr ⟨wrapped, rfl⟩
        | some old =>
          rw [hfind] at hnew
          rw [hnew]
          exact Or.inl ⟨old, (KeyedTable.find?_eq_some.mp hfind).1, rfl, rfl⟩
    · have herror : exec P now (.putShare sharer shared userId wrapped) db = (.error .db, db) := by
        simp only [exec, SqliteDb.onTables, Tables.putShare_error hok]
      rw [herror] at h
      exact Or.inl ⟨share, h, rfl, rfl⟩
  | deleteShare sharer shared userId =>
    exact Or.inl ⟨share, (Tables.mem_deleteShare.mp h).1, rfl, rfl⟩
  | _ =>
    rw [(exec_frame P now _ db).shares (by simp [writes])] at h
    exact Or.inl ⟨share, h, rfl, rfl⟩

theorem owner_of_share (h : SharedByOwner ownerId groupId requests db) (turns : List (Turn ι ℤ)) :
    ∀ share ∈ (reached P cfg requests db turns).store.shares.rows, share.groupId = groupId →
      share.ownerId = ownerId := by
  have hissues (turns : List (Turn ι ℤ)) (i : ι) :
      Issues (SharesAs ownerId groupId) ((reached P cfg requests db turns).tasks i) := by
    refine History.run_invariant (I := fun s : State ι =>
      Issues (SharesAs ownerId groupId) (s.tasks i)) (issues_act h i) ?_ turns
    exact fun _ _ => issues_turn
  induction turns using List.reverseRecOn with
  | nil => exact h.stored
  | append_singleton turns t ih =>
    intro share hshare hgroup
    have hstep : reached P cfg requests db (turns ++ [t]) =
        turn (exec P) (reached P cfg requests db turns) t := History.run_snoc _ _ _ _
    rw [hstep] at hshare
    cases hnext : ((reached P cfg requests db turns).tasks t.task).next? with
    | none =>
      rw [turn_store_of_next?_none hnext] at hshare
      exact ih share hshare hgroup
    | some c =>
      have hmakes : Makes t.task c (reached P cfg requests db turns) t := ⟨rfl, hnext⟩
      rw [turn_store_of_makes hmakes] at hshare
      rcases share_of_exec hshare with ⟨old, hold, hsame, howner⟩ | ⟨wrapped, rfl⟩
      · rw [← howner]
        exact ih old hold (hsame.trans hgroup)
      · obtain ⟨next, hp⟩ := hmakes.exists_call
        have hcall := hissues turns t.task
        rw [hp] at hcall
        exact hcall.1 hgroup

/-! ## Where the envelope goes -/

theorem asked_of_memberFiles {before : List (Turn ι ℤ)} {t : Turn ι ℤ} {accountId userId : String}
    {e : Envelope} {seq : ℤ}
    (h : MemberFiles P cfg ownerId groupId requests db before t accountId e seq i userId) :
    ∃ owner : Option String, accountId = owner.getD userId ∧
      Happened P cfg requests db (Makes i (.shareOwner groupId)) before ∧
      History.Always (turn (exec P)) (start P cfg requests db)
        (fun s t => Makes i (.shareOwner groupId) s t → s.store.shareOwner P groupId = owner)
        before := by
  obtain ⟨body, hpush⟩ := h.push
  have hstart : Until (.shareOwner groupId) (Ignorant groupId) (Informed userId groupId)
      ((start P cfg requests db).tasks i) := by
    change Until _ _ _ (Server.act P cfg (requests i))
    unfold Server.act
    rw [Arrival.pushes_eq_some.mp hpush]
    exact until_push body
  have hanswer : ∀ (x : ℤ) (db : SqliteDb), ∃ r, (exec P x (.shareOwner groupId) db).1 = .ok r :=
    fun _ _ => ⟨_, rfl⟩
  obtain ⟨next, hp⟩ := h.accepted.1.exists_call
  rcases unasked_or_asked hanswer (fun _ hq => hq rfl) hstart before with
    ⟨_, huntil⟩ | ⟨owner, hissues, hasked, hanswers⟩
  · change Until _ _ _ ((reached P cfg requests db before).tasks i) at huntil
    rw [hp, until_call (by simp)] at huntil
    exact absurd h.keyed huntil.1
  · change Issues _ ((reached P cfg requests db before).tasks i) at hissues
    rw [hp] at hissues
    refine ⟨owner, hissues.1 h.keyed, hasked, ?_⟩
    intro pre u post hsplit hmakes
    exact Except.ok.inj (hanswers pre u post hsplit hmakes)

theorem filed_iff (h : SharedByOwner ownerId groupId requests db) {before : List (Turn ι ℤ)}
    {t : Turn ι ℤ} {accountId userId : String} {e : Envelope} {seq : ℤ}
    (hfiles : MemberFiles P cfg ownerId groupId requests db before t accountId e seq i userId) :
    accountId = ownerId ↔ Happened P cfg requests db (FindsShare groupId i) before := by
  obtain ⟨owner, rfl, ⟨pre, u, post, hsplit, hmakes⟩, hanswers⟩ := asked_of_memberFiles hfiles
  constructor
  · intro howner
    refine ⟨pre, u, post, hsplit, hmakes, ?_⟩
    have hanswer : (reached P cfg requests db pre).store.shareOwner P groupId = owner :=
      hanswers pre u post hsplit hmakes
    have hsome : owner ≠ none := by
      rintro rfl
      exact hfiles.other howner
    rw [← hanswer] at hsome
    by_contra hnone
    push Not at hnone
    exact hsome (Tables.shareOwner_eq_none.mpr hnone)
  · rintro ⟨pre', u', post', hsplit', hmakes', share, hshare, hgroup⟩
    have hanswer : (reached P cfg requests db pre').store.shareOwner P groupId = owner :=
      hanswers pre' u' post' hsplit' hmakes'
    cases howner : owner with
    | none =>
      rw [howner] at hanswer
      exact absurd hgroup (Tables.shareOwner_eq_none.mp hanswer share hshare)
    | some found =>
      rw [howner] at hanswer
      obtain ⟨share', hshare', hgroup', hfound⟩ := Tables.shareOwner_eq_some hanswer
      have hsame : share'.ownerId = ownerId := owner_of_share h pre' share' hshare' hgroup'
      exact hfound.symm.trans hsame

theorem stored_of_accepts {before : List (Turn ι ℤ)} {t : Turn ι ℤ} {accountId : String}
    {e : Envelope} {seq : ℤ}
    (h : Accepts P i accountId e seq (reached P cfg requests db before) t) :
    (reached P cfg requests db (before ++ [t])).store.records.find? (recordKey accountId e) =
      some (P.recordEntry accountId e seq) := by
  obtain ⟨hmakes, haccepted⟩ := h
  have hstep : reached P cfg requests db (before ++ [t]) =
      turn (exec P) (reached P cfg requests db before) t := History.run_snoc _ _ _ _
  rw [hstep, turn_store_of_makes hmakes]
  exact find?_of_accepted haccepted

/-- What members file for the group is stored under its owner exactly if the group had a share
whenever their pushes asked for the owner. -/
theorem filedUnderOwner_iff (P : Platform) (cfg : Config) (ownerId groupId : String)
    (requests : ι → Arrival) (db : SqliteDb) (h : SharedByOwner ownerId groupId requests db)
    (turns : List (Turn ι ℤ)) :
    FiledUnderOwner P cfg ownerId groupId requests db turns ↔
      SharedWhenAsked P cfg ownerId groupId requests db turns := by
  constructor
  · intro hfiled before t after hsplit accountId e seq i userId hfiles
    exact (filed_iff h hfiles).mp (hfiled before t after hsplit _ _ _ _ _ hfiles).1
  · intro hshared before t after hsplit accountId e seq i userId hfiles
    have howner : accountId = ownerId :=
      (filed_iff h hfiles).mpr (hshared before t after hsplit _ _ _ _ _ hfiles)
    refine ⟨howner, ?_⟩
    rw [← howner]
    exact stored_of_accepts hfiles.accepted

theorem sharedWhenAsked_of_always
    (h : History.Always (turn (exec P)) (start P cfg requests db)
      (fun s t => (s.tasks t.task).next? = some (.shareOwner groupId) →
        ∃ share ∈ s.store.shares.rows, share.groupId = groupId) turns) :
    SharedWhenAsked P cfg ownerId groupId requests db turns := by
  intro before t after hsplit accountId e seq i userId hfiles
  obtain ⟨_, _, ⟨pre, u, post, hbefore, hmakes⟩, _⟩ := asked_of_memberFiles hfiles
  refine ⟨pre, u, post, hbefore, hmakes, ?_⟩
  have hnext := hmakes.2
  rw [← hmakes.1] at hnext
  exact h pre u (post ++ t :: after) (by simp [hsplit, hbefore]) hnext

section Runs

open Reference

def sharedServer : SqliteDb :=
  Server.reached .reference Reference.config
    (accounts ++ [⟨0, .createShare ⟨"ada"⟩ ⟨"g", "bob", "wrapped"⟩⟩])

/-- Bob edits a record of the group, and Ada removes his share. -/
def pushAndRemove : Bool → Arrival
  | false => ⟨1, .push ⟨"bob"⟩ [sharedHost 5]⟩
  | true => ⟨1, .removeShare ⟨"ada"⟩ "g" "bob"⟩

def edit : Turn Bool ℤ := ⟨false, 1⟩

def remove : Turn Bool ℤ := ⟨true, 1⟩

theorem shares_sharedServer :
    sharedServer.shares.rows = [⟨"g", "ada", "bob", "wrapped", 0⟩] := by
  decide +kernel

theorem sharedByOwner_pushAndRemove : SharedByOwner "ada" "g" pushAndRemove sharedServer where
  stored share hshare _ := by
    rw [shares_sharedServer] at hshare
    rw [List.mem_singleton.mp hshare]
  created i caller body h := by
    cases i with
    | false => cases h
    | true => cases h

/-- The share is removed between the two questions, and the edit becomes a record of Bob's own. -/
theorem edit_filed_under_member :
    SharedByOwner "ada" "g" pushAndRemove sharedServer ∧
      ¬ FiledUnderOwner .reference Reference.config "ada" "g" pushAndRemove sharedServer
        [edit, remove, edit, edit] := by
  refine ⟨sharedByOwner_pushAndRemove, ?_⟩
  intro h
  have hshare : ⟨"g", "ada", "bob", "wrapped", 0⟩ ∈ sharedServer.shares.rows := by
    rw [shares_sharedServer]
    exact List.mem_singleton.mpr rfl
  have hmember : Happened .reference Reference.config pushAndRemove sharedServer
      (FindsMember "g" false "bob") [edit, remove, edit] :=
    ⟨[], edit, [remove, edit], rfl, ⟨rfl, rfl⟩, _, hshare, rfl, rfl⟩
  have hfiled := h [edit, remove, edit] edit [] rfl "bob" (sharedHost 5) 1 false "bob"
    { push := ⟨_, rfl⟩
      other := by decide
      member := hmember
      keyed := rfl
      accepted := ⟨⟨rfl, by decide +kernel⟩, by decide +kernel⟩ }
  exact absurd hfiled.1 (by decide)

/-- The share is removed after both questions. -/
theorem edit_filed_under_owner :
    FiledUnderOwner .reference Reference.config "ada" "g" pushAndRemove sharedServer
      [edit, edit, remove, edit] :=
  (filedUnderOwner_iff .reference Reference.config "ada" "g" pushAndRemove sharedServer
    sharedByOwner_pushAndRemove [edit, edit, remove, edit]).mpr
    (sharedWhenAsked_of_always (by decide +kernel))

end Runs

end RemotierSync.Misfiling
