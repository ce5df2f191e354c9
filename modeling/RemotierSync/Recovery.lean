import RemotierSync.AccountRows
import RemotierSync.Reference

/-!
# No account without recovery

A register refuses recovery material without a ciphertext, because a forgotten password would be
unrecoverable. A rewrap writes the same column and does not look. Every account stays recoverable
in exactly the runs in which each rewrap that is carried out brings a recovery blob which decodes
to a ciphertext.
-/

namespace RemotierSync

def Arrival.rewraps (a : Arrival) : Option (Caller × RewrapRequest) :=
  match a.request with
  | .rewrap _ caller body => some (caller, body)
  | _ => none

namespace Recovery

open Server Auth SqliteStore

/-- Every stored recovery blob of a personal key decodes to a ciphertext. -/
def Recoverable (db : SqliteDb) : Prop :=
  ∀ account ∈ db.accounts.rows, (decode account.recoveryPersonalKey).ciphertext ≠ ""

def AlwaysRecoverable (P : Platform) (cfg : Config) (arrivals : List Arrival) : Prop :=
  ∀ before after, arrivals = before ++ after → Recoverable (reached P cfg before)

/-- A rewrap that is carried out brings a ciphertext of the personal key, or at least a nonce that
is split so that something is left for one. -/
def BringsRecovery (P : Platform) (db : SqliteDb) (a : Arrival) : Prop :=
  ∀ w ∈ a.rewraps, replaced P db a ≠ none →
    w.2.recoveryMaterial.wrappedPersonalKey.ciphertext ≠ "" ∨
      '.' ∈ w.2.recoveryMaterial.wrappedPersonalKey.nonce.toList

instance (P : Platform) (db : SqliteDb) (a : Arrival) : Decidable (BringsRecovery P db a) :=
  Option.decidableForallMem _

variable {P : Platform} {cfg : Config} {db : SqliteDb} {a : Arrival} {arrivals : List Arrival}

theorem recovery_of_replaced {id : String} {new : NewAccount}
    (h : replaced P db a = some (id, new)) :
    (∃ account ∈ db.accounts.rows, account.id = id) ∧ ∃ w ∈ a.rewraps,
      new.recoveryPersonalKey = encode w.2.recoveryMaterial.wrappedPersonalKey := by
  obtain ⟨salts, body, account, hrequest, haccount, hnew⟩ := replaced_eq_some h
  obtain ⟨_, _, _, _, rfl⟩ := replacement_eq_ok hnew
  refine ⟨⟨account, KeyedTable.find?_eq_some.mp haccount⟩, (⟨id⟩, body), ?_, rfl⟩
  rw [Arrival.rewraps, hrequest]
  rfl

theorem decodes_iff {blob : SealedBlob} : (decode (encode blob)).ciphertext ≠ "" ↔
    blob.ciphertext ≠ "" ∨ '.' ∈ blob.nonce.toList := by
  rw [ne_eq, ciphertext_decode_encode, not_and_or, not_not]

theorem recoverable_serve (hdb : WellFormed db) (h : Recoverable db) (ha : BringsRecovery P db a) :
    Recoverable (serve P cfg db a) := by
  intro account hmem
  cases hcreated : created P cfg db a with
  | some new =>
    rw [accounts_serve_of_created hcreated] at hmem
    rcases List.mem_append.mp hmem with hold | hnew
    · exact h account hold
    · obtain ⟨_, _, _, _, body, _, _, hregistration, _, rfl⟩ := created_eq_some hcreated
      obtain ⟨hnonempty, _, _, _, _, rfl⟩ := registration_eq_ok hregistration
      rw [List.mem_singleton.mp hnew]
      exact decodes_iff.mpr (Or.inl hnonempty)
  | none =>
    cases hreplaced : replaced P db a with
    | none =>
      rw [accounts_serve_of_neither hdb hcreated hreplaced] at hmem
      exact h account hmem
    | some p =>
      obtain ⟨id, new⟩ := p
      obtain ⟨_, w, hw, hblob⟩ := recovery_of_replaced hreplaced
      rw [accounts_serve_of_replaced hreplaced] at hmem
      obtain ⟨old, hold, rfl⟩ := Tables.mem_rewrapAccount.mp hmem
      split_ifs
      · change (decode new.recoveryPersonalKey).ciphertext ≠ ""
        rw [hblob]
        exact decodes_iff.mpr (ha w hw (by simp [hreplaced]))
      · exact h old hold

theorem bringsRecovery_of_recoverable (h : Recoverable (serve P cfg db a)) :
    BringsRecovery P db a := by
  intro w hw hcarried
  obtain ⟨⟨id, new⟩, hreplaced⟩ := Option.ne_none_iff_exists'.mp hcarried
  obtain ⟨⟨account, hmem, hid⟩, w', hw', hblob⟩ := recovery_of_replaced hreplaced
  obtain rfl : w' = w := Option.some.inj (hw'.symm.trans hw)
  have hrewrapped : account.rewrap new ∈ (serve P cfg db a).accounts.rows := by
    rw [accounts_serve_of_replaced hreplaced]
    exact Tables.mem_rewrapAccount.mpr ⟨account, hmem, if_pos hid⟩
  have hdecodes := h _ hrewrapped
  change (decode new.recoveryPersonalKey).ciphertext ≠ "" at hdecodes
  rw [hblob] at hdecodes
  exact decodes_iff.mp hdecodes

/-- Accounts stay recoverable in exactly the runs whose rewraps bring recovery material. -/
theorem alwaysRecoverable_iff (P : Platform) (cfg : Config) (arrivals : List Arrival) :
    AlwaysRecoverable P cfg arrivals ↔
      History.Always (serve P cfg) .migrated (BringsRecovery P) arrivals := by
  constructor
  · rintro h before a after rfl
    have hnext := h (before ++ [a]) after (by simp)
    rw [reached_snoc] at hnext
    exact bringsRecovery_of_recoverable hnext
  · rintro h before after rfl
    refine History.run_induction (I := fun before => Recoverable (reached P cfg before)) ?_ ?_
      (History.always_of_append h)
    · intro account hmem
      simp [reached, SqliteDb.migrated, Tables.migrated] at hmem
    · intro before a ih ha
      rw [reached_snoc]
      exact recoverable_serve (wellFormed_reached before) ih ha

def emptyRewrap : Arrival where
  now := 1
  request := .rewrap ⟨"salt", "recovery"⟩ ⟨"ada"⟩ {
    authKey := "new key"
    keyMaterial := Reference.keys
    recoveryAuthKey := "new code"
    recoveryMaterial := ⟨"public", ⟨"", ""⟩, ⟨"", ""⟩⟩ }

theorem rewrap_drops_recovery : ¬ AlwaysRecoverable .reference Reference.config
    [Reference.registration "ada", emptyRewrap] := by
  intro h
  have hserved : Recoverable (serve .reference Reference.config
      (reached .reference Reference.config [Reference.registration "ada"]) emptyRewrap) :=
    h [Reference.registration "ada", emptyRewrap] [] rfl
  have hbrings := bringsRecovery_of_recoverable hserved
  exact absurd hbrings (by decide +kernel)

end Recovery
end RemotierSync
