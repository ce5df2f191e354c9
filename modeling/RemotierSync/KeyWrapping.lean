import RemotierSync.Sealing
import Mathlib.Data.Set.Function

/-!
# A content key that is wrapped for a member

The sender exchanges a secret drawn for this one box with the public key of the recipient, the
recipient its own secret with the public key it reads off the box, and both expand what they get,
salted with the two public keys, into the key of the box. The exchange, the expansion and the
cipher are parameters. No function with outputs of a fixed length keeps all its inputs apart, so
that it does so is said of the secrets in use.
-/

namespace RemotierSync.Crypto

def infoBox : String := "remotier.box.v1"

structure PublicKey where
  bytes : List UInt8
  length_eq : bytes.length = keyLen

structure StaticSecret where
  bytes : List UInt8
  length_eq : bytes.length = keyLen

structure X25519 where
  publicKey : StaticSecret → PublicKey
  diffieHellman : StaticSecret → PublicKey → List UInt8
  symmetric : ∀ s t, diffieHellman s (publicKey t) = diffieHellman t (publicKey s)

/-- The expansion of a salted secret into 32 bytes. -/
structure Hkdf where
  expand : (salt shared info : List UInt8) → Except String ContentKey

def tagLen : ℕ := 16

/-- A cipher that seals a key, opens nothing but what it would seal under the same key, nonce and
associated data, and adds a tag to it. -/
structure Aead.Tagged (A : Aead) : Prop where
  seals : ∀ key nonce aad msg, msg.length = keyLen → ∃ ciphertext,
    A.encrypt key nonce aad msg = some ciphertext
  opens : ∀ key nonce aad ciphertext msg, A.decrypt key nonce aad ciphertext = some msg →
    A.encrypt key nonce aad msg = some ciphertext
  tag : ∀ key nonce aad msg ciphertext, A.encrypt key nonce aad msg = some ciphertext →
    ciphertext.length = msg.length + tagLen

/-- What was sealed under one of the keys is opened under no other one. -/
def Aead.KeepsApart (A : Aead) (keys : Set ContentKey) : Prop :=
  ∀ key ∈ keys, ∀ key' ∈ keys, ∀ nonce aad msg msg' ciphertext,
    A.encrypt key nonce aad msg = some ciphertext →
      A.decrypt key' nonce aad ciphertext = some msg' → key' = key

def Hkdf.Expands (H : Hkdf) : Prop := ∀ salt shared info, ∃ key, H.expand salt shared info = .ok key

variable (X : X25519) (H : Hkdf) (A : Aead)

def keyFrom (slice : List UInt8) (what : String) : Except Error ContentKey :=
  if h : slice.length = keyLen then .ok ⟨slice, h⟩
  else .error (.length what slice.length keyLen)

def publicFromBytes (bytes : List UInt8) : Except Error PublicKey :=
  if h : bytes.length = 32 then .ok ⟨bytes, h⟩
  else .error (.length "public key" bytes.length 32)

def boxKey (shared ephPublic recipient : List UInt8) : Except Error ContentKey :=
  (H.expand (ephPublic ++ recipient) shared (utf8 infoBox)).mapError .kdf

/-- The secret of the throwaway pair and the nonce are the ones drawn in this call. -/
def wrapFor (ephSecret : StaticSecret) (nonce : XNonce) (recipient : PublicKey)
    (key : ContentKey) : Except Error (List UInt8) := do
  let ephPublic := X.publicKey ephSecret
  let shared := X.diffieHellman ephSecret recipient
  let wrapping ← boxKey H shared ephPublic.bytes recipient.bytes
  let (nonce, ciphertext) ← sealPayload A nonce wrapping (utf8 infoBox) key.bytes
  return ephPublic.bytes ++ nonce ++ ciphertext

/-- A range of a slice. There is none outside of it, where indexing panics. -/
def range (bytes : List UInt8) (start stop : ℕ) : Option (List UInt8) :=
  if start ≤ stop ∧ stop ≤ bytes.length then some ((bytes.take stop).drop start) else none

def unwrapWith (secret : StaticSecret) (blob : List UInt8) : ExceptT Error Option ContentKey :=
  if blob.length < 32 + nonceLen then
    throw (.length "wrapped key" blob.length (32 + nonceLen))
  else do
    let ephPublic ← liftExcept (publicFromBytes (← range blob 0 32))
    let nonce ← range blob 32 (32 + nonceLen)
    let ciphertext ← range blob (32 + nonceLen) blob.length
    let shared := X.diffieHellman secret ephPublic
    let ours := X.publicKey secret
    let wrapping ← liftExcept (boxKey H shared ephPublic.bytes ours.bytes)
    let plaintext ← liftExcept (openPayload A wrapping (utf8 infoBox) nonce ciphertext)
    liftExcept (keyFrom plaintext "unwrapped key")

/-! ## The layout of a box -/

variable {X} {H} {A} {bytes blob ciphertext : List UInt8} {start stop : ℕ} {ephPublic : PublicKey}
  {nonce : XNonce} {secret secret' ephSecret : StaticSecret} {key : ContentKey}

theorem range_of_le (h : start ≤ stop) (h' : stop ≤ bytes.length) :
    range bytes start stop = some ((bytes.take stop).drop start) :=
  if_pos ⟨h, h'⟩

theorem keyFrom_bytes (key : ContentKey) (what : String) : keyFrom key.bytes what = .ok key :=
  dif_pos key.length_eq

theorem publicFromBytes_bytes (p : PublicKey) : publicFromBytes p.bytes = .ok p :=
  dif_pos p.length_eq

def unwrapParts (X : X25519) (H : Hkdf) (A : Aead) (secret : StaticSecret) (ephPublic : PublicKey)
    (nonce : XNonce) (ciphertext : List UInt8) : Except Error ContentKey := do
  let wrapping ← boxKey H (X.diffieHellman secret ephPublic) ephPublic.bytes
    (X.publicKey secret).bytes
  let plaintext ← openPayload A wrapping (utf8 infoBox) nonce.bytes ciphertext
  keyFrom plaintext "unwrapped key"

theorem run_liftExcept {α : Type} (r : Except Error α) :
    (liftExcept r : ExceptT Error Option α).run = some r := by
  cases r <;> rfl

theorem run_liftExcept_bind {α β : Type} {r : Except Error α} {f : α → ExceptT Error Option β}
    {g : α → Except Error β} (h : ∀ a, (f a).run = some (g a)) :
    (liftExcept r >>= f).run = some (r >>= g) := by
  cases r with
  | error e => rfl
  | ok a => exact h a

theorem unwrapWith_of_short (h : blob.length < 32 + nonceLen) :
    (unwrapWith X H A secret blob).run =
      some (.error (.length "wrapped key" blob.length (32 + nonceLen))) := by
  rw [unwrapWith, if_pos h]
  rfl

theorem exists_parts (h : ¬ blob.length < 32 + nonceLen) :
    ∃ (ephPublic : PublicKey) (nonce : XNonce) (ciphertext : List UInt8),
      blob = ephPublic.bytes ++ nonce.bytes ++ ciphertext := by
  refine ⟨⟨blob.take 32, ?_⟩, ⟨(blob.drop 32).take nonceLen, ?_⟩, blob.drop (32 + nonceLen), ?_⟩
  · rw [List.length_take, keyLen]
    omega
  · rw [List.length_take, List.length_drop]
    omega
  · rw [← List.drop_drop, List.append_assoc, List.take_append_drop, List.take_append_drop]

theorem unwrapWith_parts (ephPublic : PublicKey) (nonce : XNonce) (ciphertext : List UInt8) :
    (unwrapWith X H A secret (ephPublic.bytes ++ nonce.bytes ++ ciphertext)).run =
      some (unwrapParts X H A secret ephPublic nonce ciphertext) := by
  have hpublic : ephPublic.bytes.length = 32 := ephPublic.length_eq
  have hnonce : nonce.bytes.length = nonceLen := nonce.length_eq
  have hlength : (ephPublic.bytes ++ nonce.bytes ++ ciphertext).length =
      32 + nonceLen + ciphertext.length := by simp [hpublic, hnonce, add_assoc]
  have hhead : range (ephPublic.bytes ++ nonce.bytes ++ ciphertext) 0 32 =
      some ephPublic.bytes := by
    rw [range_of_le (by omega) (by omega), List.append_assoc, List.drop_zero,
      List.take_left' hpublic]
  have hmiddle : range (ephPublic.bytes ++ nonce.bytes ++ ciphertext) 32 (32 + nonceLen) =
      some nonce.bytes := by
    rw [range_of_le (by omega) (by omega), List.take_left' (by simp [hpublic, hnonce]),
      List.drop_left' hpublic]
  have hrest : range (ephPublic.bytes ++ nonce.bytes ++ ciphertext) (32 + nonceLen)
      (ephPublic.bytes ++ nonce.bytes ++ ciphertext).length = some ciphertext := by
    rw [range_of_le (by omega) le_rfl, List.take_length,
      List.drop_left' (by simp [hpublic, hnonce])]
  rw [unwrapWith, if_neg (by omega), hhead, hmiddle, hrest]
  refine (run_liftExcept_bind (r := publicFromBytes ephPublic.bytes)
    (g := fun p => unwrapParts X H A secret p nonce ciphertext) ?_).trans ?_
  · intro p
    apply run_liftExcept_bind
    intro wrapping
    apply run_liftExcept_bind
    intro plaintext
    exact run_liftExcept _
  · rw [publicFromBytes_bytes]
    rfl

/-! ## What is unwrapped -/

theorem unwrapParts_of_key {wrapping : ContentKey}
    (h : boxKey H (X.diffieHellman secret ephPublic) ephPublic.bytes (X.publicKey secret).bytes =
      .ok wrapping) :
    unwrapParts X H A secret ephPublic nonce ciphertext = (do
      let plaintext ← openPayload A wrapping (utf8 infoBox) nonce.bytes ciphertext
      keyFrom plaintext "unwrapped key") := by
  rw [unwrapParts, h]
  rfl

theorem exists_boxKey (hH : H.Expands) (shared ephPublic recipient : List UInt8) :
    ∃ key, boxKey H shared ephPublic recipient = .ok key ∧
      H.expand (ephPublic ++ recipient) shared (utf8 infoBox) = .ok key := by
  obtain ⟨key, hkey⟩ := hH (ephPublic ++ recipient) shared (utf8 infoBox)
  refine ⟨key, ?_, hkey⟩
  rw [boxKey, hkey]
  rfl

theorem exists_wrapFor (hH : H.Expands) (hA : A.Tagged) (ephSecret : StaticSecret)
    (nonce : XNonce) (recipient : PublicKey) (key : ContentKey) :
    ∃ wrapping ciphertext,
      H.expand ((X.publicKey ephSecret).bytes ++ recipient.bytes)
        (X.diffieHellman ephSecret recipient) (utf8 infoBox) = .ok wrapping ∧
      A.encrypt wrapping nonce (utf8 infoBox) key.bytes = some ciphertext ∧
      wrapFor X H A ephSecret nonce recipient key =
        .ok ((X.publicKey ephSecret).bytes ++ nonce.bytes ++ ciphertext) := by
  obtain ⟨wrapping, hbox, hexpand⟩ := exists_boxKey hH (X.diffieHellman ephSecret recipient)
    (X.publicKey ephSecret).bytes recipient.bytes
  obtain ⟨ciphertext, hencrypt⟩ :=
    hA.seals wrapping nonce (utf8 infoBox) key.bytes key.length_eq
  refine ⟨wrapping, ciphertext, hexpand, hencrypt, ?_⟩
  have hseal : sealPayload A nonce wrapping (utf8 infoBox) key.bytes =
      .ok (nonce.bytes, ciphertext) := by
    rw [sealPayload, hencrypt]
  rw [wrapFor, hbox]
  change (do
    let (nonce, ciphertext) ← sealPayload A nonce wrapping (utf8 infoBox) key.bytes
    return (X.publicKey ephSecret).bytes ++ nonce ++ ciphertext) = _
  rw [hseal]
  rfl

theorem unwrapParts_of_decrypt {wrapping : ContentKey} {msg : List UInt8}
    (h : boxKey H (X.diffieHellman secret ephPublic) ephPublic.bytes (X.publicKey secret).bytes =
      .ok wrapping) (hdecrypt : A.decrypt wrapping nonce (utf8 infoBox) ciphertext = some msg) :
    unwrapParts X H A secret ephPublic nonce ciphertext = keyFrom msg "unwrapped key" := by
  rw [unwrapParts_of_key h, openPayload_nonce, hdecrypt]
  rfl

theorem decrypt_of_unwrapParts
    (h : unwrapParts X H A secret ephPublic nonce ciphertext = .ok key) :
    ∃ wrapping, H.expand (ephPublic.bytes ++ (X.publicKey secret).bytes)
        (X.diffieHellman secret ephPublic) (utf8 infoBox) = .ok wrapping ∧
      A.decrypt wrapping nonce (utf8 infoBox) ciphertext = some key.bytes := by
  cases hexpand : H.expand (ephPublic.bytes ++ (X.publicKey secret).bytes)
    (X.diffieHellman secret ephPublic) (utf8 infoBox) with
  | error e =>
    rw [unwrapParts, boxKey, hexpand] at h
    cases h
  | ok wrapping =>
    refine ⟨wrapping, rfl, ?_⟩
    have hkey : boxKey H (X.diffieHellman secret ephPublic) ephPublic.bytes
        (X.publicKey secret).bytes = .ok wrapping := by
      rw [boxKey, hexpand]
      rfl
    rw [unwrapParts_of_key hkey, openPayload_nonce] at h
    cases hdecrypt : A.decrypt wrapping nonce (utf8 infoBox) ciphertext with
    | none =>
      rw [hdecrypt] at h
      cases h
    | some msg =>
      rw [hdecrypt] at h
      change keyFrom msg "unwrapped key" = .ok key at h
      unfold keyFrom at h
      split_ifs at h with hlength
      rw [← Except.ok.inj h]

theorem length_of_unwrapParts (hA : A.Tagged)
    (h : unwrapParts X H A secret ephPublic nonce ciphertext = .ok key) :
    (ephPublic.bytes ++ nonce.bytes ++ ciphertext).length = 104 := by
  obtain ⟨wrapping, _, hdecrypt⟩ := decrypt_of_unwrapParts h
  have hlength := hA.tag _ _ _ _ _ (hA.opens _ _ _ _ _ hdecrypt)
  rw [List.length_append, List.length_append, ephPublic.length_eq, nonce.length_eq, hlength,
    key.length_eq]
  rfl

theorem range_inside (secret : StaticSecret) (blob : List UInt8) :
    (unwrapWith X H A secret blob).run ≠ none := by
  by_cases hshort : blob.length < 32 + nonceLen
  · rw [unwrapWith_of_short hshort]
    exact Option.some_ne_none _
  · obtain ⟨ephPublic, nonce, ciphertext, rfl⟩ := exists_parts hshort
    rw [unwrapWith_parts]
    exact Option.some_ne_none _

theorem length_of_unwrapWith (hA : A.Tagged)
    (h : (unwrapWith X H A secret blob).run = some (.ok key)) : blob.length = 104 := by
  by_cases hshort : blob.length < 32 + nonceLen
  · rw [unwrapWith_of_short hshort] at h
    cases Option.some.inj h
  · obtain ⟨ephPublic, nonce, ciphertext, rfl⟩ := exists_parts hshort
    rw [unwrapWith_parts] at h
    exact length_of_unwrapParts hA (Option.some.inj h)

/-! ## The secrets in use -/

/-- The salts and the shared secrets that any two of the secrets arrive at. -/
def exchanges (X : X25519) (secrets : Set StaticSecret) : Set (List UInt8 × List UInt8) :=
  {p | ∃ ephSecret ∈ secrets, ∃ secret ∈ secrets,
    p = ((X.publicKey ephSecret).bytes ++ (X.publicKey secret).bytes,
      X.diffieHellman ephSecret (X.publicKey secret))}

def Hkdf.KeepsApart (H : Hkdf) (inputs : Set (List UInt8 × List UInt8)) : Prop :=
  Set.InjOn (fun p => H.expand p.1 p.2 (utf8 infoBox)) inputs

def boxKeys (X : X25519) (H : Hkdf) (secrets : Set StaticSecret) : Set ContentKey :=
  {key | ∃ p ∈ exchanges X secrets, H.expand p.1 p.2 (utf8 infoBox) = .ok key}

/-- A box is opened by its recipient, by nobody else, and only at its full length. -/
structure Wraps (X : X25519) (H : Hkdf) (A : Aead) (secrets : Set StaticSecret) : Prop where
  recipient : ∀ secret key ephSecret nonce, ∃ blob,
    wrapFor X H A ephSecret nonce (X.publicKey secret) key = .ok blob ∧
      (unwrapWith X H A secret blob).run = some (.ok key)
  others : ∀ ephSecret ∈ secrets, ∀ secret ∈ secrets, ∀ secret' ∈ secrets,
    X.publicKey secret' ≠ X.publicKey secret → ∀ key nonce blob,
      wrapFor X H A ephSecret nonce (X.publicKey secret) key = .ok blob →
        ∃ e, (unwrapWith X H A secret' blob).run = some (.error e)
  inside : ∀ secret blob, ∃ result, (unwrapWith X H A secret blob).run = some result ∧
    (blob.length ≠ 104 → ∃ e, result = .error e)

/-- Two recipients expand the exchange with one throwaway key to different keys. -/
theorem boxKeys_ne {secrets : Set StaticSecret} (hapart : H.KeepsApart (exchanges X secrets))
    (heph : ephSecret ∈ secrets) (hs : secret ∈ secrets) (hs' : secret' ∈ secrets)
    (hne : X.publicKey secret' ≠ X.publicKey secret) {wrapping wrapping' : ContentKey}
    (h : H.expand ((X.publicKey ephSecret).bytes ++ (X.publicKey secret).bytes)
      (X.diffieHellman ephSecret (X.publicKey secret)) (utf8 infoBox) = .ok wrapping)
    (h' : H.expand ((X.publicKey ephSecret).bytes ++ (X.publicKey secret').bytes)
      (X.diffieHellman ephSecret (X.publicKey secret')) (utf8 infoBox) = .ok wrapping') :
    wrapping' ≠ wrapping := by
  rintro rfl
  have hinputs := hapart ⟨ephSecret, heph, secret', hs', rfl⟩ ⟨ephSecret, heph, secret, hs, rfl⟩
    (h'.trans h.symm)
  have hpublic := List.append_cancel_left (Prod.mk.inj hinputs).1
  apply hne
  rcases hp : X.publicKey secret with ⟨bytes, hbytes⟩
  rcases hp' : X.publicKey secret' with ⟨bytes', hbytes'⟩
  rw [hp, hp'] at hpublic
  obtain rfl : bytes' = bytes := hpublic
  rfl

/-- Wrapping a content key for a member, for any secrets in use whose exchanges the expansion
keeps apart and whose boxes the cipher does. -/
theorem wraps (X : X25519) (H : Hkdf) (A : Aead) (secrets : Set StaticSecret) (hH : H.Expands)
    (hA : A.Tagged) (hapart : H.KeepsApart (exchanges X secrets))
    (hkeys : A.KeepsApart (boxKeys X H secrets)) : Wraps X H A secrets where
  recipient secret key ephSecret nonce := by
    obtain ⟨wrapping, ciphertext, hexpand, hencrypt, hwrap⟩ :=
      exists_wrapFor (X := X) hH hA ephSecret nonce (X.publicKey secret) key
    refine ⟨_, hwrap, ?_⟩
    rw [X.symmetric] at hexpand
    rw [unwrapWith_parts, unwrapParts_of_decrypt (by rw [boxKey, hexpand]; rfl)
      (A.decrypt_encrypt hencrypt), keyFrom_bytes]
  others ephSecret heph secret hs secret' hs' hne key nonce blob hblob := by
    obtain ⟨wrapping, ciphertext, hexpand, hencrypt, hwrap⟩ :=
      exists_wrapFor (X := X) hH hA ephSecret nonce (X.publicKey secret) key
    obtain rfl := Except.ok.inj (hwrap.symm.trans hblob)
    rw [unwrapWith_parts]
    cases hresult : unwrapParts X H A secret' (X.publicKey ephSecret) nonce ciphertext with
    | error e => exact ⟨e, rfl⟩
    | ok opened =>
      obtain ⟨wrapping', hexpand', hdecrypt⟩ := decrypt_of_unwrapParts hresult
      rw [X.symmetric] at hexpand'
      have hsame := hkeys wrapping ⟨_, ⟨ephSecret, heph, secret, hs, rfl⟩, hexpand⟩ wrapping'
        ⟨_, ⟨ephSecret, heph, secret', hs', rfl⟩, hexpand'⟩ _ _ _ _ _ hencrypt hdecrypt
      exact absurd hsame (boxKeys_ne hapart heph hs hs' hne hexpand hexpand')
  inside secret blob := by
    obtain ⟨result, hresult⟩ := Option.ne_none_iff_exists'.mp
      (range_inside (X := X) (H := H) (A := A) secret blob)
    refine ⟨result, hresult, ?_⟩
    intro hlength
    cases result with
    | error e => exact ⟨e, rfl⟩
    | ok key => exact absurd (length_of_unwrapWith hA hresult) hlength

section Runs

def X25519.reference : X25519 where
  publicKey secret := ⟨secret.bytes, secret.length_eq⟩
  diffieHellman secret p := List.zipWith (· + ·) secret.bytes p.bytes
  symmetric _ _ := List.zipWith_comm_of_comm UInt8.add_comm

/-- The first byte of either public key, padded to the length of a key. -/
def Hkdf.reference : Hkdf where
  expand salt _ _ := .ok ⟨[salt.getD 0 0, salt.getD 32 0] ++ List.replicate 30 0, rfl⟩

def Aead.tagging : Aead where
  encrypt key _ _ msg := some (key.bytes.take tagLen ++ msg)
  decrypt key _ _ ciphertext := (key.bytes.take tagLen).isPrefixOf? ciphertext
  decrypt_encrypt h := by
    rw [← Option.some.inj h]
    exact List.isPrefixOf?_eq_some_iff_append_eq.mpr rfl

def repeated : Set StaticSecret := {secret | ∃ b, secret.bytes = List.replicate keyLen b}

theorem tagging_tagged : Aead.tagging.Tagged where
  seals key nonce aad msg _ := ⟨_, rfl⟩
  opens key nonce aad ciphertext msg h := by
    rw [← List.isPrefixOf?_eq_some_iff_append_eq.mp h]
    rfl
  tag key nonce aad msg ciphertext h := by
    rw [← Option.some.inj h, List.length_append, List.length_take, key.length_eq, add_comm]
    rfl

theorem reference_keepsApart : Hkdf.reference.KeepsApart (exchanges .reference repeated) := by
  rintro _ ⟨⟨e, he⟩, ⟨a, rfl⟩, ⟨s, hs⟩, ⟨b, rfl⟩, rfl⟩
    _ ⟨⟨e', he'⟩, ⟨a', rfl⟩, ⟨s', hs'⟩, ⟨b', rfl⟩, rfl⟩ h
  have hkey := congrArg ContentKey.bytes (Except.ok.inj h)
  obtain ⟨rfl, hrest⟩ := List.cons.inj (show a :: b :: _ = a' :: b' :: _ from hkey)
  obtain ⟨rfl, _⟩ := List.cons.inj hrest
  rfl

theorem bytes_of_mem_boxKeys {key : ContentKey}
    (h : key ∈ boxKeys .reference .reference repeated) :
    ∃ a b, key.bytes = [a, b] ++ List.replicate 30 0 := by
  obtain ⟨_, ⟨⟨e, he⟩, ⟨a, rfl⟩, ⟨s, hs⟩, ⟨b, rfl⟩, rfl⟩, hkey⟩ := h
  exact ⟨a, b, congrArg ContentKey.bytes (Except.ok.inj hkey).symm⟩

theorem tagging_keepsApart : Aead.tagging.KeepsApart (boxKeys .reference .reference repeated) := by
  intro key hkey key' hkey' nonce aad msg msg' ciphertext hencrypt hdecrypt
  obtain ⟨a, b, hbytes⟩ := bytes_of_mem_boxKeys hkey
  obtain ⟨a', b', hbytes'⟩ := bytes_of_mem_boxKeys hkey'
  have hprefix : key'.bytes.take tagLen ++ msg' = key.bytes.take tagLen ++ msg :=
    (List.isPrefixOf?_eq_some_iff_append_eq.mp hdecrypt).trans (Option.some.inj hencrypt).symm
  rw [hbytes, hbytes'] at hprefix
  obtain ⟨rfl, hrest⟩ := List.cons.inj hprefix
  obtain ⟨rfl, _⟩ := List.cons.inj hrest
  cases key
  cases key'
  obtain rfl := hbytes
  obtain rfl := hbytes'
  rfl

theorem repeated_wraps : Wraps .reference .reference .tagging repeated :=
  wraps .reference .reference .tagging repeated (fun _ _ _ => ⟨_, rfl⟩) tagging_tagged
    reference_keepsApart tagging_keepsApart

end Runs

end RemotierSync.Crypto
