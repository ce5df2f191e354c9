import Mathlib
import RemotierSync.Addresses
import RemotierSync.Library.Equidistribution

/-!
# Recovery codes

A recovery code spells twenty of the drawn bytes, modulo the 32 symbols of its alphabet, in groups
of five. What is derived from it does not depend on separators or on case, and the alphabet is in
upper case and free of separators: however a code is retyped it is read as the twenty symbols, and
the codes of draws that differ in one of them are told apart. Twenty symbols are a hundred bits.
-/

namespace RemotierSync

namespace Crypto

def alphabet : List Char := "ABCDEFGHJKMNPQRSTVWXYZ0123456789".toList

theorem alphabet_length : alphabet.length = 32 := rfl

def residue (b : UInt8) : Fin alphabet.length :=
  ⟨b.toNat % alphabet.length, Nat.mod_lt _ (by decide)⟩

def symbol (b : UInt8) : Char := alphabet.get (residue b)

/-- What the loop appends for one byte: a separator first, at the start of a later group. -/
def piece (p : UInt8 × ℕ) : List Char :=
  if 0 < p.2 ∧ p.2 % 5 = 0 then ['-', symbol p.1] else [symbol p.1]

/-- The code from the bytes that `random_key` has drawn. -/
def generateRecoveryCode (draw : ContentKey) : String :=
  String.ofList ((draw.bytes.take 20).zipIdx.flatMap piece)

def isSeparator (c : Char) : Bool := c = '-' || c = ' '

def toAsciiUppercase (s : String) : String := String.ofList (s.toList.map Char.toUpper)

/-- `code.replace(['-', ' '], "").to_ascii_uppercase()`. -/
def normalise (code : String) : String :=
  toAsciiUppercase (String.ofList (code.toList.filter (fun c => !isSeparator c)))

/-- What reaches Argon2. -/
def recoverySecret (code : String) : List UInt8 := utf8 (normalise code)

def recoverySalt : List UInt8 := utf8 "remotier.recovery.v1"

def deriveRecoveryKeys (K : Kdf) (code : String) : Except Error AccountKeys := do
  let master ← (K.argon2id (recoverySecret code) recoverySalt).mapError .kdf
  let auth ← subkey K master infoAuth
  let wrap ← subkey K master infoWrap
  return ⟨auth, wrap⟩

example : generateRecoveryCode ⟨List.replicate 32 33, rfl⟩ = "BBBBB-BBBBB-BBBBB-BBBBB" := by
  decide +kernel

variable {b b' : UInt8} {c : Char}

/-! ## Symbols -/

theorem alphabet_normal (h : c ∈ alphabet) : isSeparator c = false ∧ c.toUpper = c := by
  have hall : alphabet.all (fun c => !isSeparator c && c.toUpper = c) = true := by decide
  simpa using List.all_eq_true.mp hall c h

theorem symbol_mem (b : UInt8) : symbol b ∈ alphabet := List.get_mem _ _

theorem alphabet_get_injective : Function.Injective alphabet.get := by
  have hnodup : alphabet.Nodup := by decide
  exact fun i j h => hnodup.get_inj_iff.mp h

theorem residue_eq_iff : residue b = residue b' ↔ b.toNat % 32 = b'.toNat % 32 := by
  rw [residue, residue, Fin.mk.injEq, alphabet_length]

theorem filter_piece (p : UInt8 × ℕ) :
    (piece p).filter (fun c => !isSeparator c) = [symbol p.1] := by
  have hsymbol : isSeparator (symbol p.1) = false := (alphabet_normal (symbol_mem p.1)).1
  have hdash : isSeparator '-' = true := rfl
  unfold piece
  split_ifs
  · simp [hsymbol, hdash]
  · simp [hsymbol]

/-- A code is read as its twenty symbols. -/
theorem normalise_generateRecoveryCode (draw : ContentKey) :
    normalise (generateRecoveryCode draw) =
      String.ofList ((draw.bytes.take 20).map symbol) := by
  have hfilter : ((draw.bytes.take 20).zipIdx.flatMap piece).filter (fun c => !isSeparator c) =
      (draw.bytes.take 20).map symbol := by
    simp only [List.filter_flatMap, filter_piece, ← List.map_eq_flatMap]
    rw [← Function.comp_def symbol Prod.fst, ← List.map_map, List.zipIdx_map_fst]
  rw [normalise, generateRecoveryCode, String.toList_ofList, hfilter, toAsciiUppercase,
    String.toList_ofList, List.map_map]
  apply congrArg String.ofList
  apply List.map_congr_left
  intro b _
  exact (alphabet_normal (symbol_mem b)).2

/-! ## Retyping -/

/-- One change to what is typed: a separator more or less, or a character in another case. -/
inductive Edit : List Char → List Char → Prop where
  | insert (before after : List Char) {c : Char} (h : isSeparator c = true) :
      Edit (before ++ after) (before ++ c :: after)
  | remove (before after : List Char) {c : Char} (h : isSeparator c = true) :
      Edit (before ++ c :: after) (before ++ after)
  | recase (before after : List Char) {c c' : Char} (h : c' = c.toUpper ∨ c' = c.toLower) :
      Edit (before ++ c :: after) (before ++ c' :: after)

def Retyped (code typed : String) : Prop := Relation.ReflTransGen Edit code.toList typed.toList

def readChars (l : List Char) : List Char := (l.filter (fun c => !isSeparator c)).map Char.toUpper

theorem normalise_eq (code : String) : normalise code = String.ofList (readChars code.toList) := by
  rw [normalise, toAsciiUppercase, String.toList_ofList, readChars]

theorem isSeparator_of_isAlpha (h : c.isAlpha = true) : isSeparator c = false := by
  rw [← Bool.not_eq_true]
  intro hsep
  rw [isSeparator, Bool.or_eq_true, decide_eq_true_eq, decide_eq_true_eq] at hsep
  rcases hsep with rfl | rfl <;> exact absurd h (by decide)

theorem recase_cases {c' : Char} (h : c' = c.toUpper ∨ c' = c.toLower) :
    c' = c ∨ (c.isAlpha = true ∧ c'.isAlpha = true ∧ c'.toUpper = c.toUpper) := by
  by_cases halpha : c.isAlpha = true
  · refine Or.inr ⟨halpha, ?_⟩
    rcases h with rfl | rfl <;> simp [halpha]
  · rw [Char.isAlpha, Bool.or_eq_true, not_or] at halpha
    rcases h with rfl | rfl
    · exact Or.inl (Char.toUpper_eq_of_not_isLower halpha.2)
    · exact Or.inl (Char.toLower_eq_of_not_isUpper halpha.1)

theorem readChars_of_edit {l l' : List Char} (h : Edit l l') : readChars l' = readChars l := by
  cases h with
  | insert before after h => simp [readChars, h]
  | remove before after h => simp [readChars, h]
  | recase before after h =>
    rcases recase_cases h with rfl | ⟨hc, hc', hupper⟩
    · rfl
    · simp [readChars, isSeparator_of_isAlpha hc, isSeparator_of_isAlpha hc', hupper]

theorem recoverySecret_of_retyped {code typed : String} (h : Retyped code typed) :
    recoverySecret typed = recoverySecret code := by
  have hread : ∀ l, Relation.ReflTransGen Edit code.toList l →
      readChars l = readChars code.toList := by
    intro l hl
    induction hl with
    | refl => rfl
    | tail _ hedit ih => rw [readChars_of_edit hedit, ih]
  rw [recoverySecret, normalise_eq, hread _ h, recoverySecret, normalise_eq]

/-! ## Telling codes apart -/

def ContentKey.byte (key : ContentKey) (i : Fin keyLen) : UInt8 :=
  key.bytes.get (i.cast key.length_eq.symm)

def used (draw : ContentKey) (i : Fin 20) : UInt8 := draw.byte (Fin.castLE (by decide) i)

def spell (residues : Fin 20 → Fin alphabet.length) : List UInt8 :=
  utf8 (String.ofList (List.ofFn (fun i => alphabet.get (residues i))))

theorem spell_injective : Function.Injective spell := by
  intro f g h
  have hlist := String.ofList_inj.mp (utf8_injective h)
  funext i
  exact alphabet_get_injective (congrFun (List.ofFn_injective hlist) i)

theorem take_bytes (draw : ContentKey) : draw.bytes.take 20 = List.ofFn (used draw) := by
  have hlength : draw.bytes.length = 32 := draw.length_eq
  apply List.ext_getElem
  · simp [hlength]
  · intro i hi _
    rw [List.getElem_take, List.getElem_ofFn]
    rfl

/-- The secret of a code spells the residues of the bytes used. -/
theorem recoverySecret_generateRecoveryCode (draw : ContentKey) :
    recoverySecret (generateRecoveryCode draw) = spell (fun i => residue (used draw i)) := by
  rw [recoverySecret, normalise_generateRecoveryCode, take_bytes, List.map_ofFn, spell]
  rfl

/-- However the code is retyped, the secret and the keys are its own, and the code of another draw
is another secret unless the bytes used agree modulo 32. -/
structure Works (draw : ContentKey) : Prop where
  retyped : ∀ typed, Retyped (generateRecoveryCode draw) typed →
    recoverySecret typed = recoverySecret (generateRecoveryCode draw)
  keys : ∀ K typed, Retyped (generateRecoveryCode draw) typed →
    deriveRecoveryKeys K typed = deriveRecoveryKeys K (generateRecoveryCode draw)
  only : ∀ draw', recoverySecret (generateRecoveryCode draw') =
      recoverySecret (generateRecoveryCode draw) →
    ∀ i, (used draw' i).toNat % 32 = (used draw i).toNat % 32

/-- Every recovery code works however it is typed, and only that code. -/
theorem recoveryCode_works (draw : ContentKey) : Works draw where
  retyped _ := recoverySecret_of_retyped
  keys K typed h := by
    rw [deriveRecoveryKeys, recoverySecret_of_retyped h, deriveRecoveryKeys]
  only draw' h i := by
    rw [recoverySecret_generateRecoveryCode, recoverySecret_generateRecoveryCode] at h
    exact residue_eq_iff.mp (congrFun (spell_injective h) i)

/-! ## Counting codes -/

def secrets : Set (List UInt8) :=
  Set.range (fun draw => recoverySecret (generateRecoveryCode draw))

def drawsOf (secret : List UInt8) : Set ContentKey :=
  {draw | recoverySecret (generateRecoveryCode draw) = secret}

/-- There are as many secrets as that many bits tell apart, with as many draws behind each as
behind any other. -/
def Carries (bits : ℕ) : Prop :=
  2 ^ bits ≤ secrets.ncard ∧ ∃ n, ∀ secret ∈ secrets, (drawsOf secret).ncard = n

def byteEquiv : UInt8 ≃ Fin alphabet.length × Fin 8 where
  toFun b := (residue b, ⟨b.toNat / 32, by have := b.toNat_lt; omega⟩)
  invFun p := UInt8.ofNat (32 * p.2 + p.1)
  left_inv b := by
    change UInt8.ofNat (32 * (b.toNat / 32) + b.toNat % 32) = b
    rw [Nat.div_add_mod, UInt8.ofNat_toNat]
  right_inv p := by
    obtain ⟨x, y⟩ := p
    have hx : x.val < 32 := x.isLt
    have hbyte : (UInt8.ofNat (32 * y + x)).toNat = 32 * y + x := by
      rw [UInt8.toNat_ofNat', Nat.mod_eq_of_lt (by omega)]
    refine Prod.ext (Fin.ext ?_) (Fin.ext ?_)
    · change (UInt8.ofNat (32 * y + x)).toNat % 32 = x
      omega
    · change (UInt8.ofNat (32 * y + x)).toNat / 32 = y
      omega

def bytesEquiv : ContentKey ≃ (Fin (20 + 12) → UInt8) where
  toFun := ContentKey.byte
  invFun f := ⟨List.ofFn f, List.length_ofFn⟩
  left_inv key := by
    have hbytes : List.ofFn key.byte = key.bytes :=
      List.ext_getElem (by rw [List.length_ofFn, key.length_eq])
        (fun i _ _ => List.getElem_ofFn _)
    obtain ⟨bytes, hlength⟩ := key
    exact (ContentKey.mk.injEq _ _ _ _).mpr hbytes
  right_inv f := by
    funext i
    exact List.getElem_ofFn _

def drawEquiv :
    ContentKey ≃ (Fin 20 → Fin alphabet.length) × ((Fin 20 → Fin 8) × (Fin 12 → UInt8)) :=
  (bytesEquiv.trans (Fin.appendEquiv 20 12).symm).trans
    ((Equiv.prodCongrLeft (fun _ => (Equiv.arrowCongr (Equiv.refl (Fin 20)) byteEquiv).trans
      (Equiv.arrowProdEquivProdArrow (Fin 20) _ _))).trans (Equiv.prodAssoc _ _ _))

theorem secret_eq_spell : (fun draw => recoverySecret (generateRecoveryCode draw)) =
    spell ∘ (Prod.fst ∘ drawEquiv) := by
  funext draw
  rw [recoverySecret_generateRecoveryCode]
  rfl

theorem card_byte : Nat.card UInt8 = 2 ^ 8 := by
  rw [Nat.card_congr byteEquiv, Nat.card_prod, Nat.card_fin, Nat.card_fin]
  rfl

theorem ncard_secrets : secrets.ncard = 2 ^ 100 := by
  rw [secrets, secret_eq_spell, Equidistribution.ncard_range_injective_comp spell_injective,
    drawEquiv.surjective.range_comp, Equidistribution.ncard_range_fst, Nat.card_fun, Nat.card_fin,
    Nat.card_fin, alphabet_length]
  norm_num

theorem evenly_secret :
    Equidistribution.Evenly (fun draw => recoverySecret (generateRecoveryCode draw)) (2 ^ 156) := by
  have hcard : Nat.card ((Fin 20 → Fin 8) × (Fin 12 → UInt8)) = 2 ^ 156 := by
    rw [Nat.card_prod, Nat.card_fun, Nat.card_fun, Nat.card_fin, Nat.card_fin, Nat.card_fin,
      card_byte]
    norm_num
  rw [secret_eq_spell, ← hcard]
  exact (Equidistribution.evenly_fst.comp_equiv drawEquiv).injective_comp spell_injective

theorem carries_of_le {bits : ℕ} (h : bits ≤ 100) : Carries bits := by
  refine ⟨?_, 2 ^ 156, evenly_secret⟩
  rw [ncard_secrets]
  exact Nat.pow_le_pow_right (by norm_num) h

theorem le_of_carries {bits : ℕ} (h : Carries bits) : bits ≤ 100 := by
  have hle := h.1
  rw [ncard_secrets] at hle
  exact (Nat.pow_le_pow_iff_right (by norm_num)).mp hle

/-- A code does not carry 128 bits. -/
theorem not_carries : ¬ Carries 128 :=
  fun h => absurd (le_of_carries h) (by norm_num)

/-- A code carries a hundred bits and no more: there are `2 ^ 100` secrets, each with `2 ^ 156`
draws behind it. -/
theorem carries_iff (bits : ℕ) : secrets.ncard = 2 ^ 100 ∧
    (∀ secret ∈ secrets, (drawsOf secret).ncard = 2 ^ 156) ∧ (Carries bits ↔ bits ≤ 100) :=
  ⟨ncard_secrets, evenly_secret, le_of_carries, carries_of_le⟩

end Crypto
end RemotierSync
