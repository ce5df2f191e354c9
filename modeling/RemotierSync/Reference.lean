import RemotierSync.Server

/-!
# A platform to compute with

A lawful instance of `Platform` on which runs of the server can be evaluated. A key reference is
the JSON text of its tagged enum for ids that need no escaping; an address is lowered by ASCII
case; `LIMIT 1` takes the first row. A byte string is written one character a byte and a token
hash is the token itself, which is all that the runs below, with empty payloads and distinct
tokens, depend on.
-/

namespace RemotierSync

namespace Reference

def bytesToString (bytes : List UInt8) : String :=
  String.ofList (bytes.map (fun b => Char.ofNat b.toNat))

def stringToBytes (s : String) : List UInt8 := s.toList.map (fun c => UInt8.ofNat c.toNat)

theorem toNat_ofNat {n : ℕ} (h : n.isValidChar) : (Char.ofNat n).toNat = n := by
  rw [show Char.ofNat n = Char.ofNatAux n h from dif_pos h]
  rfl

theorem stringToBytes_bytesToString (bytes : List UInt8) :
    stringToBytes (bytesToString bytes) = bytes := by
  have hbyte (b : UInt8) : UInt8.ofNat (Char.ofNat b.toNat).toNat = b := by
    have hvalid : b.toNat.isValidChar := Or.inl (by have := b.toNat_lt; omega)
    rw [toNat_ofNat hvalid, UInt8.ofNat_toNat]
  simp only [stringToBytes, bytesToString, String.toList_ofList, List.map_map]
  exact (List.map_congr_left (fun b _ => hbyte b)).trans (List.map_id' bytes)

def personalText : List Char := "\x7b\"type\":\"personal\"\x7d".toList

def groupText : List Char := "\x7b\"type\":\"group\",\"group_id\":\"".toList

def keyRefToString : KeyRef → String
  | .personal => String.ofList personalText
  | .group groupId => String.ofList (groupText ++ groupId.toList ++ "\"\x7d".toList)

def keyRefFromStr (s : String) : Except String KeyRef :=
  if s.toList = personalText then .ok .personal
  else
    match groupText.isPrefixOf? s.toList with
    | none => .error "unknown variant"
    | some rest => .ok (.group (String.ofList (rest.take (rest.length - 2))))

theorem keyRefFromStr_toString (k : KeyRef) : keyRefFromStr (keyRefToString k) = .ok k := by
  cases k with
  | personal => rfl
  | group groupId =>
    have htext : (keyRefToString (.group groupId)).toList =
        groupText ++ (groupId.toList ++ "\"\x7d".toList) := by
      simp [keyRefToString]
    have hprefix : groupText.isPrefixOf? (keyRefToString (.group groupId)).toList =
        some (groupId.toList ++ "\"\x7d".toList) :=
      List.isPrefixOf?_eq_some_iff_append_eq.mpr htext.symm
    have hne : (keyRefToString (.group groupId)).toList ≠ personalText := by
      intro h
      have hnone : groupText.isPrefixOf? personalText = none := by decide
      rw [h, hnone] at hprefix
      exact absurd hprefix (by simp)
    unfold keyRefFromStr
    rw [if_neg hne, hprefix]
    simp

end Reference

def Platform.reference : Platform where
  base64Encode := Reference.bytesToString
  base64Decode s := .ok (Reference.stringToBytes s)
  base64Decode_encode bytes := by rw [Reference.stringToBytes_bytesToString]
  keyRefToString := Reference.keyRefToString
  keyRefFromStr := Reference.keyRefFromStr
  keyRefFromStr_toString := Reference.keyRefFromStr_toString
  toLowercase s := String.ofList (s.toList.map Char.toLower)
  hashToken token := token
  hashPassword authKey salt := .ok (salt ++ "$" ++ authKey)
  verifyPassword authKey stored :=
    (stored.toList.dropWhile (fun c => c ≠ '$')).drop 1 = authKey.toList
  limitOne := List.head?
  mem_of_limitOne := List.mem_of_head?
  limitOne_eq_none := List.head?_eq_none_iff.mp
  scanShares := id
  scanShares_perm := .refl
  scanDevices := id
  scanDevices_perm := .refl

namespace Reference

def config : Config := .fromEnv true

def keys : KeyMaterial := ⟨"public", ⟨"nonce", "secret"⟩, ⟨"nonce", "key"⟩⟩

def registration (id : String) : Arrival where
  now := 0
  request := .register true id ⟨"salt", "recovery"⟩ ⟨"access-" ++ id, "refresh-" ++ id⟩ {
    email := id ++ "@example.com"
    authKey := "key-" ++ id
    keyMaterial := keys
    recoveryMaterial := keys
    recoveryAuthKey := "code-" ++ id
    deviceId := ""
    deviceName := "" }

def host (id : String) (keyRef : KeyRef) (groupId : Option String) (updatedAt : ℤ) : Envelope where
  id := id
  kind := .host
  keyRef := keyRef
  groupId := groupId
  parentId := none
  sort := 0
  updatedAt := updatedAt
  deviceId := "laptop"
  deletedAt := none
  nonce := []
  ciphertext := []
  seq := 0

/-- A record of the group "g", keyed to it and labelled with it. -/
def sharedHost (updatedAt : ℤ) : Envelope := host "h" (.group "g") (some "g") updatedAt

def accounts : List Arrival := [registration "ada", registration "bob", registration "carol"]

end Reference
end RemotierSync
