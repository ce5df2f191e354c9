import RemotierSync.LateSessions
import RemotierSync.TokenRows

/-!
# Refresh tokens that are exchanged

A refresh request consumes the token it presents by one store call and issues the next pair by
later ones, while any number of other requests do the same. A token can be consumed while its row
is stored and only its own request ever stores that row, once. So a run has a single turn at
which a token is consumed, and every request that issues a session for it made that turn.
-/

namespace RemotierSync.Sessions

open Program Pool Auth

variable {ι : Type} [DecidableEq ι] (P : Platform) (cfg : Config) (requests : ι → SessionRequest)
  (db : SqliteDb)

omit [DecidableEq ι] in
/-- The request consumes the token it is about. -/
def Spends (token : String) (i : ι) (s : State ι) (t : Turn ι ℤ) : Prop :=
  Makes i (.consumeToken (P.hashToken token) refreshKind) s t ∧
    s.store.takeToken t.input (P.hashToken token) refreshKind ≠ none

/-- The request has stored a token of its session, or has been answered with it. -/
def Issued (turns : List (Turn ι ℤ)) (i : ι) : Prop :=
  Happened P cfg requests db (Puts i) turns ∨
    ((reached P cfg requests db turns).tasks i).succeeded = true

/-- The request presents this refresh token and has issued a session for it. -/
def Exchanges (turns : List (Turn ι ℤ)) (token : String) (i : ι) : Prop :=
  (requests i).arrival.presented = some token ∧ Issued P cfg requests db turns i

def StoresRefresh (hash : String) (c : Call) : Prop :=
  ∃ accountId expiresAt, c = .putToken hash accountId refreshKind expiresAt

/-- A request stores its own tokens, the refresh token last. -/
def PutsOnce (hashes : List String) : (c : Call) → (c.Ret → Handler Unit) → Prop
  | .putToken hash _ kind _, next =>
    hash ∈ hashes ∧ (kind = refreshKind → Everywhere Answers (fun c _ => Plain c) (next ()))
  | _, _ => True

def Stored (hash : String) (s : State ι) : Prop :=
  ∃ row ∈ s.store.tokens.rows, row.hash = hash ∧ row.kind = refreshKind

/-- No request is going to store a refresh token under this hash. -/
def NoneStores (hash : String) (s : State ι) : Prop :=
  ∀ i, Everywhere Answers (fun c _ => ¬ StoresRefresh hash c) (s.tasks i)

variable {P} {cfg} {requests} {db} {turns : List (Turn ι ℤ)} {t : Turn ι ℤ} {s : State ι}
  {i j : ι} {hash token : String} {hs : List String}

/-! ## What a request stores -/

theorem putsOnce_of_plain {p : Handler Unit} (h : Everywhere Answers (fun c _ => Plain c) p) :
    Everywhere Answers (PutsOnce hs) p := by
  apply h.mono
  intro c next hc
  cases c with
  | putToken hash accountId kind expiresAt => exact hc.elim
  | _ => exact trivial

theorem not_storesRefresh_of_plain {c : Call} (h : Plain c) : ¬ StoresRefresh hash c := by
  rintro ⟨accountId, expiresAt, rfl⟩
  exact h

theorem putsOnce_issueSession (now : ℤ) (minted : Minted) (account : Account)
    (deviceId deviceName : String) :
    Everywhere Answers (PutsOnce [P.hashToken minted.accessToken, P.hashToken minted.refreshToken])
      (Program.discard (issueSession P cfg now minted account deviceId deviceName)) := by
  have hdevice : Everywhere Answers (fun c _ => Plain c) (Program.discard (do
      if deviceId ≠ "" then ask (.touchDevice account.id deviceId deviceName)
      return (⟨account.id, account.email, minted.accessToken, minted.refreshToken,
        cfg.accessTtlSecs, Auth.keyMaterial account⟩ : Session))) := by
    by_cases hempty : deviceId ≠ ""
    · rw [if_pos hempty]
      exact ⟨trivial, fun _ _ => trivial⟩
    · rw [if_neg hempty]
      exact trivial
  refine ⟨⟨by simp, fun hkind => absurd hkind access_ne_refreshKind⟩, fun _ _ => ?_⟩
  exact ⟨⟨by simp, fun _ => hdevice⟩, fun _ _ => putsOnce_of_plain hdevice⟩

theorem putsOnce_signIn (now : ℤ) (minted : Minted) (accepted : Bool) (account : Account)
    (deviceId deviceName : String) :
    Everywhere Answers (PutsOnce [P.hashToken minted.accessToken, P.hashToken minted.refreshToken])
      (Program.discard (if !accepted then .fail .badCredentials
        else issueSession P cfg now minted account deviceId deviceName)) := by
  cases accepted with
  | false => exact trivial
  | true => exact putsOnce_issueSession now minted account deviceId deviceName

theorem putsOnce_act (r : SessionRequest) :
    Everywhere Answers (PutsOnce (hashes P r)) (act P cfg r) := by
  cases r with
  | login now admitted minted body =>
    cases admitted with
    | false => exact trivial
    | true =>
      refine ⟨trivial, ?_⟩
      intro found _
      cases found with
      | none => exact trivial
      | some account => exact putsOnce_signIn now minted _ account _ _
  | recover now admitted minted body =>
    cases admitted with
    | false => exact trivial
    | true =>
      refine ⟨trivial, ?_⟩
      intro found _
      cases found with
      | none => exact trivial
      | some account => exact putsOnce_signIn now minted _ (recoveryView account) _ _
  | refresh now minted refreshToken =>
    refine ⟨trivial, ?_⟩
    intro consumed _
    cases consumed with
    | none => exact trivial
    | some row =>
      refine ⟨trivial, ?_⟩
      intro found _
      cases found with
      | none => exact trivial
      | some account => exact putsOnce_issueSession now minted account "" ""
  | rewrap salts caller body => exact putsOnce_of_plain (plain_rewrap salts caller body)
  | logout caller => exact ⟨trivial, fun _ _ => trivial⟩

theorem putsOnce_reached (turns : List (Turn ι ℤ)) (i : ι) :
    Everywhere Answers (PutsOnce (hashes P (requests i)))
      ((reached P cfg requests db turns).tasks i) := by
  induction turns using List.reverseRecOn with
  | nil => exact putsOnce_act (requests i)
  | append_singleton turns t ih =>
    rw [reached_snoc]
    exact everywhere_turn answers_exec ih

theorem not_storesRefresh_of_not_mem {p : Handler Unit} (hp : Everywhere Answers (PutsOnce hs) p)
    (hhash : hash ∉ hs) : Everywhere Answers (fun c _ => ¬ StoresRefresh hash c) p := by
  apply hp.mono
  rintro c next hputs ⟨accountId, expiresAt, rfl⟩
  exact hhash hputs.1

theorem noneStores_turn (h : NoneStores hash s) : NoneStores hash (step P s t) :=
  fun i => everywhere_turn answers_exec (h i)

theorem stored_turn (h : Stored hash (step P s t)) :
    Stored hash s ∨ ∃ c, Makes t.task c s t ∧ StoresRefresh hash c := by
  obtain ⟨row, hrow, rfl, hkind⟩ := h
  rcases mem_tokens_turn hrow with ⟨old, hold, hhash, _, hsame⟩ | ⟨expiresAt, hmakes, _⟩
  · exact Or.inl ⟨old, hold, hhash, hsame.trans hkind⟩
  · rw [hkind] at hmakes
    exact Or.inr ⟨_, hmakes, row.accountId, expiresAt, rfl⟩

/-- The request that stores a refresh token stores no other, and no other request stores it. -/
theorem noneStores_of_stores (hfresh : FreshTokens P requests db) {c : Call}
    (hmakes : Makes t.task c (reached P cfg requests db turns) t) (hc : StoresRefresh hash c) :
    NoneStores hash (reached P cfg requests db (turns ++ [t])) := by
  obtain ⟨accountId, expiresAt, rfl⟩ := hc
  obtain ⟨next, hp⟩ := hmakes.exists_call
  have hputs : Everywhere Answers (PutsOnce (hashes P (requests t.task)))
      ((reached P cfg requests db turns).tasks t.task) := putsOnce_reached turns t.task
  rw [hp] at hputs
  obtain ⟨hown, hlast⟩ := hputs.1
  intro i
  by_cases hi : i = t.task
  · subst hi
    have hrest : Everywhere Answers (fun c _ => ¬ StoresRefresh hash c) (next ()) :=
      (hlast rfl).mono (fun _ _ => not_storesRefresh_of_plain)
    rw [reached_snoc, turn_task, hp]
    rcases h : SqliteStore.exec P t.input (.putToken hash accountId refreshKind expiresAt)
      (reached P cfg requests db turns).store with ⟨e | r, store⟩
    · rw [advance_of_error h]
      exact trivial
    · rw [advance_of_ok h]
      exact hrest
  · apply not_storesRefresh_of_not_mem (putsOnce_reached (turns ++ [t]) i)
    exact fun hmem => hfresh.apart _ _ hi hash hmem hown

/-! ## A token before and after it is consumed -/

omit [DecidableEq ι] in
theorem not_storesRefresh_of_noneStores (h : NoneStores hash s) {c : Call}
    (hmakes : Makes i c s t) : ¬ StoresRefresh hash c := by
  obtain ⟨next, hp⟩ := hmakes.exists_call
  have hi := h i
  rw [hp] at hi
  exact hi.1

theorem noneStores_of_stored (hfresh : FreshTokens P requests db)
    (h : Stored hash (reached P cfg requests db turns)) :
    NoneStores hash (reached P cfg requests db turns) := by
  induction turns using List.reverseRecOn with
  | nil =>
    obtain ⟨row, hrow, rfl, _⟩ := h
    exact fun i => not_storesRefresh_of_not_mem (putsOnce_act (requests i))
      (hfresh.unused i row hrow)
  | append_singleton turns t ih =>
    rw [reached_snoc] at h
    rcases stored_turn h with hbefore | ⟨c, hmakes, hc⟩
    · rw [reached_snoc]
      exact noneStores_turn (ih hbefore)
    · exact noneStores_of_stores hfresh hmakes hc

omit [DecidableEq ι] in
theorem stored_of_spends (h : Spends P token i s t) : Stored (P.hashToken token) s := by
  obtain ⟨found, hfound⟩ := Option.ne_none_iff_exists'.mp h.2
  obtain ⟨row, hrow, hhash, hkind, _⟩ := row_of_takeToken hfound
  exact ⟨row, hrow, hhash, hkind⟩

theorem not_stored_of_spends (h : Spends P token i s t) :
    ¬ Stored (P.hashToken token) (step P s t) := by
  rintro ⟨row, hrow, hhash, _⟩
  rw [turn_store_of_makes h.1] at hrow
  obtain ⟨hstored, hkept⟩ := KeyedTable.mem_delete.mp hrow
  obtain ⟨found, hfound⟩ := Option.ne_none_iff_exists'.mp h.2
  obtain ⟨taken, htaken, _⟩ := Option.map_eq_some_iff.mp hfound
  have hlive := List.find?_some htaken
  have hsame : taken = row := by
    apply s.store.tokens.eq_of_key_eq (List.mem_of_find?_eq_some htaken) hstored
    exact (Tables.isLive_iff.mp hlive).1.trans hhash.symm
  rw [hsame, hkept] at hlive
  exact Bool.false_ne_true hlive

theorem spent_of_happened (hfresh : FreshTokens P requests db)
    (h : Happened P cfg requests db (Spends P token i) turns) :
    ¬ Stored (P.hashToken token) (reached P cfg requests db turns) ∧
      NoneStores (P.hashToken token) (reached P cfg requests db turns) := by
  induction turns using List.reverseRecOn with
  | nil => exact absurd h History.not_occurred_nil
  | append_singleton turns t ih =>
    rw [reached_snoc]
    rcases happened_snoc.mp h with hbefore | hnow
    · obtain ⟨hgone, hnone⟩ := ih hbefore
      refine ⟨?_, noneStores_turn hnone⟩
      intro hstored
      rcases stored_turn hstored with hold | ⟨c, hmakes, hc⟩
      · exact hgone hold
      · exact not_storesRefresh_of_noneStores hnone hmakes hc
    · exact ⟨not_stored_of_spends hnow,
        noneStores_turn (noneStores_of_stored hfresh (stored_of_spends hnow))⟩

theorem spends_unique (hfresh : FreshTokens P requests db)
    (hi : Happened P cfg requests db (Spends P token i) turns)
    (hj : Happened P cfg requests db (Spends P token j) turns) : i = j := by
  induction turns using List.reverseRecOn with
  | nil => exact absurd hi History.not_occurred_nil
  | append_singleton turns t ih =>
    rcases happened_snoc.mp hi with hi | hi
    · rcases happened_snoc.mp hj with hj | hj
      · exact ih hi hj
      · exact absurd (stored_of_spends hj) (spent_of_happened hfresh hi).1
    · rcases happened_snoc.mp hj with hj | hj
      · exact absurd (stored_of_spends hi) (spent_of_happened hfresh hj).1
      · exact hi.1.1.symm.trans hj.1.1

/-! ## A request that issues -/

omit [DecidableEq ι] in
theorem not_puts_of_next? {c : Call} (hnext : (s.tasks i).next? = some c)
    (hc : isPutToken c = false) : ¬ Puts i s t := by
  rintro ⟨hash, accountId, kind, expiresAt, hmakes, _⟩
  obtain rfl : c = .putToken hash accountId kind expiresAt :=
    Option.some.inj (hnext.symm.trans hmakes.2)
  exact absurd hc (by simp [isPutToken])

theorem not_issued_snoc (h : ¬ Issued P cfg requests db turns i)
    (hputs : ¬ Puts i (reached P cfg requests db turns) t)
    (hends : ((step P (reached P cfg requests db turns) t).tasks i).succeeded = false) :
    ¬ Issued P cfg requests db (turns ++ [t]) i := by
  rintro (hput | hdone)
  · rcases happened_snoc.mp hput with hbefore | hnow
    · exact h (Or.inl hbefore)
    · exact hputs hnow
  · rw [reached_snoc, hends] at hdone
    exact Bool.false_ne_true hdone

theorem spends_or_fails {now : ℤ} {minted : Minted} (hi : t.task = i)
    (htask : s.tasks i = act P cfg (.refresh now minted token)) :
    Spends P token i s t ∨ (step P s t).tasks i = .fail .unauthorised := by
  subst hi
  have hmakes : Makes t.task (.consumeToken (P.hashToken token) refreshKind) s t := by
    refine ⟨rfl, ?_⟩
    rw [htask]
    rfl
  by_cases hnone : s.store.takeToken t.input (P.hashToken token) refreshKind = none
  · refine Or.inr ?_
    rw [turn_task, htask]
    have hanswer : SqliteStore.exec P t.input (.consumeToken (P.hashToken token) refreshKind)
        s.store = (.ok none,
          (SqliteStore.exec P t.input (.consumeToken (P.hashToken token) refreshKind)
            s.store).2) := by
      refine Prod.ext ?_ rfl
      exact congrArg Except.ok hnone
    exact congrArg Prod.fst (advance_of_ok hanswer)
  · exact Or.inl ⟨hmakes, hnone⟩

theorem waiting_snoc {now : ℤ} {minted : Minted} (h : ¬ Issued P cfg requests db turns i)
    (htask : (reached P cfg requests db turns).tasks i = act P cfg (.refresh now minted token)) :
    Spends P token i (reached P cfg requests db turns) t ∨
      (¬ Issued P cfg requests db (turns ++ [t]) i ∧
        ((reached P cfg requests db (turns ++ [t])).tasks i =
            act P cfg (.refresh now minted token) ∨
          ∃ e, (reached P cfg requests db (turns ++ [t])).tasks i = .fail e)) := by
  have hputs : ¬ Puts i (reached P cfg requests db turns) t := by
    apply not_puts_of_next? (c := .consumeToken (P.hashToken token) refreshKind) _ rfl
    rw [htask]
    rfl
  by_cases hi : t.task = i
  · rcases spends_or_fails hi htask with hspends | hfails
    · exact Or.inl hspends
    · refine Or.inr ⟨not_issued_snoc h hputs ?_, Or.inr ⟨.unauthorised, ?_⟩⟩
      · rw [hfails]
        rfl
      · rw [reached_snoc, hfails]
  · have hsame : (step P (reached P cfg requests db turns) t).tasks i =
        act P cfg (.refresh now minted token) := by
      rw [turn_task_of_ne (Ne.symm hi), htask]
    refine Or.inr ⟨not_issued_snoc h hputs ?_, Or.inl ?_⟩
    · rw [hsame]
      rfl
    · rw [reached_snoc, hsame]

theorem failed_snoc {e : Error} (h : ¬ Issued P cfg requests db turns i)
    (htask : (reached P cfg requests db turns).tasks i = .fail e) :
    ¬ Issued P cfg requests db (turns ++ [t]) i ∧
      (reached P cfg requests db (turns ++ [t])).tasks i = .fail e := by
  have hsame : (step P (reached P cfg requests db turns) t).tasks i = .fail e := by
    rw [turn_task_of_next?_none (by rw [htask]; rfl), htask]
  refine ⟨not_issued_snoc h ?_ ?_, ?_⟩
  · rintro ⟨hash, accountId, kind, expiresAt, hmakes, _⟩
    rw [Makes, htask] at hmakes
    exact absurd hmakes.2 (by simp [next?])
  · rw [hsame]
    rfl
  · rw [reached_snoc, hsame]

/-- A refresh has consumed the token it presents, or it waits for its first turn, or it has
failed. -/
theorem spends_or_not_issued (hpresented : (requests i).arrival.presented = some token) :
    Happened P cfg requests db (Spends P token i) turns ∨
      (¬ Issued P cfg requests db turns i ∧
        ((reached P cfg requests db turns).tasks i = act P cfg (requests i) ∨
          ∃ e, (reached P cfg requests db turns).tasks i = .fail e)) := by
  obtain ⟨now, minted, hrefresh⟩ : ∃ now minted, requests i = .refresh now minted token := by
    cases h : requests i with
    | refresh now minted refreshToken =>
      rw [h] at hpresented
      obtain rfl : refreshToken = token := Option.some.inj hpresented
      exact ⟨now, minted, rfl⟩
    | _ => simp [h, SessionRequest.arrival, Arrival.presented] at hpresented
  induction turns using List.reverseRecOn with
  | nil =>
    refine Or.inr ⟨?_, Or.inl rfl⟩
    rintro (hput | hdone)
    · exact History.not_occurred_nil hput
    · change (act P cfg (requests i)).succeeded = true at hdone
      rw [hrefresh] at hdone
      exact Bool.false_ne_true hdone
  | append_singleton turns t ih =>
    rw [hrefresh] at ih ⊢
    rcases ih with hspent | ⟨hissued, htask | ⟨e, htask⟩⟩
    · exact Or.inl (hspent.append _)
    · rcases waiting_snoc hissued htask with hspends | hnot
      · exact Or.inl (happened_snoc.mpr (Or.inr hspends))
      · exact Or.inr hnot
    · obtain ⟨hnot, hfailed⟩ := failed_snoc hissued htask
      exact Or.inr ⟨hnot, Or.inr ⟨e, hfailed⟩⟩

/-- Of the requests that present a refresh token, one at most ever issues a session. -/
theorem exchanged_at_most_once (P : Platform) (cfg : Config) (requests : ι → SessionRequest)
    (db : SqliteDb) (hfresh : FreshTokens P requests db) (turns : List (Turn ι ℤ))
    (token : String) : {i | Exchanges P cfg requests db turns token i}.Subsingleton := by
  rintro i ⟨hi, hissued⟩ j ⟨hj, hissued'⟩
  have hspends := (spends_or_not_issued hi).resolve_right (fun h => h.1 hissued)
  have hspends' := (spends_or_not_issued hj).resolve_right (fun h => h.1 hissued')
  exact spends_unique hfresh hspends hspends'

section Runs

open Reference

def adaAndThief : Bool → SessionRequest
  | false => .refresh 1 ⟨"access-1", "refresh-1"⟩ "refresh-ada"
  | true => .refresh 1 ⟨"access-2", "refresh-2"⟩ "refresh-ada"

theorem adaAndThief_fresh : FreshTokens .reference adaAndThief adaServer where
  apart := by decide +kernel
  unused := by decide +kernel

def adaTurn : Turn Bool ℤ := ⟨false, 1⟩

def thiefTurn : Turn Bool ℤ := ⟨true, 1⟩

/-- Turn by turn with Ada's request, the copy is not exchanged. -/
theorem copied_token_is_spent :
    Exchanges .reference Reference.config adaAndThief adaServer
        [adaTurn, thiefTurn, adaTurn, thiefTurn, adaTurn, adaTurn] "refresh-ada" false ∧
      ¬ Exchanges .reference Reference.config adaAndThief adaServer
        [adaTurn, thiefTurn, adaTurn, thiefTurn, adaTurn, adaTurn] "refresh-ada" true := by
  have hada : Exchanges .reference Reference.config adaAndThief adaServer
      [adaTurn, thiefTurn, adaTurn, thiefTurn, adaTurn, adaTurn] "refresh-ada" false :=
    ⟨rfl, Or.inr (by decide +kernel)⟩
  refine ⟨hada, ?_⟩
  intro hthief
  exact Bool.false_ne_true (exchanged_at_most_once .reference Reference.config adaAndThief adaServer
    adaAndThief_fresh [adaTurn, thiefTurn, adaTurn, thiefTurn, adaTurn, adaTurn] "refresh-ada"
    hada hthief)

end Runs

end RemotierSync.Sessions
