import RemotierSync.Reference
import RemotierSync.Library.Framing

/-!
# What a payload is sealed against

A payload is sealed against the id, the kind, the clock and the device of its envelope, written
one after the other with a separator between them. The kinds do not contain the separator and a
clock has a fixed width, but an id or a device may contain any text. Two envelopes share their
associated data without sharing these fields exactly when the id of one goes on, past the id of
the other, into the fields that follow it there.
-/

namespace RemotierSync

def utf8 (s : String) : List UInt8 := s.toUTF8.data.toList

def unitSeparator : UInt8 := 0x1f

def InI64 (n : ℤ) : Prop := -2 ^ 63 ≤ n ∧ n < 2 ^ 63

instance (n : ℤ) : Decidable (InI64 n) := inferInstanceAs (Decidable (_ ∧ _))

def toBeBytes (n : ℤ) : List UInt8 := Framing.bigEndian 8 (n % 2 ^ 64).toNat

theorem utf8_injective : Function.Injective utf8 := fun _ _ h =>
  String.toByteArray_inj.mp (ByteArray.ext (Array.toList_inj.mp h))

theorem length_toBeBytes (n : ℤ) : (toBeBytes n).length = 8 := Framing.length_bigEndian _ _

theorem toBeBytes_inj {n n' : ℤ} (hn : InI64 n) (hn' : InI64 n') :
    toBeBytes n = toBeBytes n' ↔ n = n' := by
  refine ⟨?_, congrArg toBeBytes⟩
  intro h
  unfold InI64 at hn hn'
  have hwords := Framing.bigEndian_inj (by omega) (by omega) h
  omega

theorem separator_not_mem_kind (k : RecordKind) : unitSeparator ∉ utf8 k.asStr := by
  cases k <;> decide +kernel

namespace Envelope

def aad (e : Envelope) : List UInt8 :=
  utf8 e.id ++ [unitSeparator] ++ utf8 e.kind.asStr ++ [unitSeparator] ++ toBeBytes e.updatedAt ++
    [unitSeparator] ++ utf8 e.deviceId

def afterId (e : Envelope) : List UInt8 :=
  utf8 e.kind.asStr ++ unitSeparator :: (toBeBytes e.updatedAt ++ unitSeparator :: utf8 e.deviceId)

/-- The two envelopes agree on the fields that a payload is sealed against. -/
def SameHeader (e e' : Envelope) : Prop :=
  e.id = e'.id ∧ e.kind = e'.kind ∧ e.updatedAt = e'.updatedAt ∧ e.deviceId = e'.deviceId

/-- The id of the second envelope goes on where the id of the first one ends: past a separator,
into the fields that follow there, until what is left of them are the fields after its own. -/
def RunsInto (e e' : Envelope) : Prop :=
  ∃ rest, utf8 e'.id = utf8 e.id ++ unitSeparator :: rest ∧
    e.afterId = rest ++ unitSeparator :: e'.afterId

variable {e e' : Envelope}

theorem aad_eq (e : Envelope) : e.aad = utf8 e.id ++ unitSeparator :: e.afterId := by
  simp [aad, afterId]

theorem SameVersion.sealed (h : e.SameVersion e') :
    e.aad = e'.aad ∧ e.nonce = e'.nonce ∧ e.ciphertext = e'.ciphertext := by
  have hversion : ({ e with seq := 0 } : Envelope) = { e' with seq := 0 } := h
  have hsealed := congrArg (fun e => (aad e, e.nonce, e.ciphertext)) hversion
  exact ⟨(Prod.mk.inj hsealed).1, Prod.mk.inj (Prod.mk.inj hsealed).2⟩

/-- The fields after the id are read back: the kind ends at the separator, the clock has a fixed
width. -/
theorem afterId_inj (he : InI64 e.updatedAt) (he' : InI64 e'.updatedAt) :
    e.afterId = e'.afterId ↔
      e.kind = e'.kind ∧ e.updatedAt = e'.updatedAt ∧ e.deviceId = e'.deviceId := by
  constructor
  · intro h
    obtain ⟨hkind, hrest⟩ := (Framing.append_sep_inj (separator_not_mem_kind e.kind)
      (separator_not_mem_kind e'.kind)).mp h
    have hlength : (toBeBytes e.updatedAt).length = (toBeBytes e'.updatedAt).length := by
      rw [length_toBeBytes, length_toBeBytes]
    obtain ⟨hclock, hdevice⟩ := List.append_inj hrest hlength
    exact ⟨RecordKind.asStr_injective (utf8_injective hkind), (toBeBytes_inj he he').mp hclock,
      utf8_injective (List.cons.inj hdevice).2⟩
  · rintro ⟨hkind, hclock, hdevice⟩
    rw [afterId, hkind, hclock, hdevice, afterId]

/-- What it takes for two envelopes to have the same associated data. -/
theorem aad_eq_iff (he : InI64 e.updatedAt) (he' : InI64 e'.updatedAt) :
    e.aad = e'.aad ↔ e.SameHeader e' ∨ e.RunsInto e' ∨ e'.RunsInto e := by
  rw [aad_eq, aad_eq, Framing.append_sep_eq_iff, afterId_inj he he', utf8_injective.eq_iff]
  rfl

theorem RunsInto.id_ne (h : e.RunsInto e') : e.id ≠ e'.id := by
  obtain ⟨rest, hid, _⟩ := h
  intro hsame
  have hlength := congrArg List.length hid
  rw [hsame, List.length_append, List.length_cons] at hlength
  omega

theorem not_runsInto_of_no_separator (h : unitSeparator ∉ utf8 e'.id) : ¬ e.RunsInto e' := by
  rintro ⟨rest, hid, _⟩
  rw [hid] at h
  exact h (by simp)

end Envelope

namespace Crypto

def keyLen : ℕ := 32

def nonceLen : ℕ := 24

inductive Error where
  | decrypt
  | encrypt
  | length (what : String) (got expected : ℕ)
  | kdf (message : String)
deriving DecidableEq, Repr

structure ContentKey where
  bytes : List UInt8
  length_eq : bytes.length = keyLen

structure XNonce where
  bytes : List UInt8
  length_eq : bytes.length = nonceLen

/-- The cipher: what it encrypts it decrypts under the same key, nonce and associated data. -/
structure Aead where
  encrypt : ContentKey → XNonce → (aad msg : List UInt8) → Option (List UInt8)
  decrypt : ContentKey → XNonce → (aad ciphertext : List UInt8) → Option (List UInt8)
  decrypt_encrypt : ∀ {key nonce aad msg ciphertext},
    encrypt key nonce aad msg = some ciphertext → decrypt key nonce aad ciphertext = some msg

/-- What was encrypted against some associated data is not decrypted against any other. -/
def Aead.Authentic (A : Aead) : Prop :=
  ∀ key nonce aad aad' msg msg' ciphertext, A.encrypt key nonce aad msg = some ciphertext →
    A.decrypt key nonce aad' ciphertext = some msg' → aad' = aad

variable (A : Aead)

/-- The function `seal` of the source, with the nonce it draws. -/
def sealPayload (nonce : XNonce) (key : ContentKey) (aad plaintext : List UInt8) :
    Except Error (List UInt8 × List UInt8) :=
  match A.encrypt key nonce aad plaintext with
  | some ciphertext => .ok (nonce.bytes, ciphertext)
  | none => .error .encrypt

/-- The function `open` of the source. -/
def openPayload (key : ContentKey) (aad nonce ciphertext : List UInt8) :
    Except Error (List UInt8) :=
  if h : nonce.length = nonceLen then
    match A.decrypt key ⟨nonce, h⟩ aad ciphertext with
    | some plaintext => .ok plaintext
    | none => .error .decrypt
  else .error (.length "nonce" nonce.length nonceLen)

variable {A} {nonce : XNonce} {key : ContentKey} {aad aad' plaintext plaintext' : List UInt8}
  {sealed : List UInt8 × List UInt8}

theorem sealPayload_eq_ok (h : sealPayload A nonce key aad plaintext = .ok sealed) :
    sealed.1 = nonce.bytes ∧ A.encrypt key nonce aad plaintext = some sealed.2 := by
  unfold sealPayload at h
  cases hc : A.encrypt key nonce aad plaintext with
  | none => simp [hc] at h
  | some ciphertext =>
    rw [hc] at h
    obtain rfl := Except.ok.inj h
    exact ⟨rfl, rfl⟩

theorem openPayload_nonce (ciphertext : List UInt8) :
    openPayload A key aad nonce.bytes ciphertext =
      match A.decrypt key nonce aad ciphertext with
      | some plaintext => .ok plaintext
      | none => .error .decrypt :=
  dif_pos nonce.length_eq

theorem openPayload_of_sealPayload (h : sealPayload A nonce key aad plaintext = .ok sealed) :
    openPayload A key aad sealed.1 sealed.2 = .ok plaintext := by
  obtain ⟨hnonce, hencrypt⟩ := sealPayload_eq_ok h
  rw [hnonce, openPayload_nonce, A.decrypt_encrypt hencrypt]

theorem Aead.Authentic.aad_eq (hA : A.Authentic)
    (h : sealPayload A nonce key aad plaintext = .ok sealed)
    (hopen : openPayload A key aad' sealed.1 sealed.2 = .ok plaintext') : aad' = aad := by
  obtain ⟨hnonce, hencrypt⟩ := sealPayload_eq_ok h
  rw [hnonce, openPayload_nonce] at hopen
  cases hd : A.decrypt key nonce aad' sealed.2 with
  | none => simp [hd] at hopen
  | some msg => exact hA _ _ _ _ _ _ _ hencrypt hd

def framed (aad : List UInt8) : List UInt8 := List.replicate aad.length 1 ++ 0 :: aad

theorem framed_append_inj {msg msg' : List UInt8} (h : framed aad ++ msg = framed aad' ++ msg') :
    aad = aad' := by
  have hfields : List.replicate aad.length (1 : UInt8) ++ 0 :: (aad ++ msg) =
      List.replicate aad'.length 1 ++ 0 :: (aad' ++ msg') := by simpa [framed] using h
  have hlengths : ∀ n, (0 : UInt8) ∉ List.replicate n (1 : UInt8) := by simp [List.mem_replicate]
  obtain ⟨hcount, hrest⟩ := (Framing.append_sep_inj (hlengths _) (hlengths _)).mp hfields
  have hlength := congrArg List.length hcount
  rw [List.length_replicate, List.length_replicate] at hlength
  exact (List.append_inj hrest hlength).1

def Aead.reference : Aead where
  encrypt _ _ aad msg := some (framed aad ++ msg)
  decrypt _ _ aad ciphertext := (framed aad).isPrefixOf? ciphertext
  decrypt_encrypt h := by
    rw [← Option.some.inj h]
    exact List.isPrefixOf?_eq_some_iff_append_eq.mpr rfl

theorem reference_authentic : Aead.reference.Authentic := by
  intro key nonce aad aad' msg msg' ciphertext hencrypt hdecrypt
  have hframed := List.isPrefixOf?_eq_some_iff_append_eq.mp hdecrypt
  rw [← Option.some.inj hencrypt] at hframed
  exact framed_append_inj hframed

end Crypto

namespace Sealing

open Crypto

/-- The second header is not taken for the first: neither by its associated data nor by a payload
that was sealed for the first one. -/
structure Bound (A : Aead) (e e' : Envelope) : Prop where
  aad : e.aad = e'.aad → e.SameHeader e'
  payload : ∀ nonce key plaintext sealed, sealPayload A nonce key e.aad plaintext = .ok sealed →
    ∀ plaintext', openPayload A key e'.aad sealed.1 sealed.2 = .ok plaintext' → e.SameHeader e'

/-- The associated data binds a payload to its header, unless an id runs into the fields of the
other envelope. -/
theorem bound_iff (A : Aead) (hA : A.Authentic) (e e' : Envelope) (he : InI64 e.updatedAt)
    (he' : InI64 e'.updatedAt) : Bound A e e' ↔ ¬ e.RunsInto e' ∧ ¬ e'.RunsInto e := by
  constructor
  · intro h
    refine ⟨?_, ?_⟩
    · intro hrun
      have hsame := h.aad ((Envelope.aad_eq_iff he he').mpr (Or.inr (Or.inl hrun)))
      exact hrun.id_ne hsame.1
    · intro hrun
      have hsame := h.aad ((Envelope.aad_eq_iff he he').mpr (Or.inr (Or.inr hrun)))
      exact hrun.id_ne hsame.1.symm
  · rintro ⟨hrun, hrun'⟩
    have haad : e.aad = e'.aad → e.SameHeader e' := by
      intro h
      rcases (Envelope.aad_eq_iff he he').mp h with hsame | hinto | hinto
      · exact hsame
      · exact absurd hinto hrun
      · exact absurd hinto hrun'
    refine ⟨haad, ?_⟩
    intro nonce key plaintext sealed hseal plaintext' hopen
    exact haad (hA.aad_eq hseal hopen).symm

/-- A record whose device name holds a whole header, and one whose id does. -/
def longDevice : Envelope :=
  { Reference.host "a" .personal none 0 with
    deviceId := "\x1fhost\x1f\x00\x00\x00\x00\x00\x00\x00\x00\x1fd" }

def longId : Envelope :=
  { Reference.host "a\x1fhost\x1f\x00\x00\x00\x00\x00\x00\x00\x00\x1f" .personal none 0 with
    deviceId := "d" }

theorem header_in_id_collides : ¬ Bound .reference longDevice longId := by
  intro h
  have hsame := h.aad (by decide +kernel)
  exact absurd hsame.1 (by decide +kernel)

theorem plain_ids_bound :
    Bound .reference (Reference.host "a" .personal none 5) (Reference.host "b" .personal none 5) :=
  (bound_iff .reference reference_authentic _ _ (by decide) (by decide)).mpr
    ⟨Envelope.not_runsInto_of_no_separator (by decide +kernel),
      Envelope.not_runsInto_of_no_separator (by decide +kernel)⟩

end Sealing
end RemotierSync
