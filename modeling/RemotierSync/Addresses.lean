import RemotierSync.Sealing
import RemotierSync.Postgres

/-!
# Which addresses are one account

The server lowers an address as Unicode does before it stores or looks it up; a client lowers its
ASCII letters only before it derives its keys. Both trim. The two agree on a pair of addresses
unless the server takes one for the other and the keys derived from them differ: because they
differ, once trimmed, in the case of a letter outside ASCII and in nothing else, or because they
part behind a U+0000, where `COLLATE NOCASE` does not look.
-/

namespace RemotierSync

/-- `str::to_ascii_lowercase`. -/
def toAsciiLowercase (s : String) : String := String.ofList (s.toList.map Char.toLower)

namespace Crypto

def saltContext : String := "remotier.salt.v1"

def infoAuth : String := "remotier.auth.v1"

def infoWrap : String := "remotier.wrap.v1"

structure Kdf where
  sha256 : List UInt8 → List UInt8
  argon2id : (secret salt : List UInt8) → Except String ContentKey
  expand : ContentKey → List UInt8 → Except String ContentKey

structure AccountKeys where
  auth : ContentKey
  wrap : ContentKey

variable (K : Kdf)

/-- What is hashed into the salt of the master key. -/
def saltInput (email : String) : List UInt8 :=
  utf8 saltContext ++ utf8 (toAsciiLowercase (trim email))

def deriveMaster (password email : String) : Except Error ContentKey :=
  (K.argon2id (utf8 password) (K.sha256 (saltInput email))).mapError .kdf

def subkey (master : ContentKey) (info : String) : Except Error ContentKey :=
  (K.expand master (utf8 info)).mapError .kdf

def deriveAccountKeys (password email : String) : Except Error AccountKeys := do
  let master ← deriveMaster K password email
  let auth ← subkey K master infoAuth
  let wrap ← subkey K master infoWrap
  return ⟨auth, wrap⟩

variable {x y : String}

theorem saltInput_eq_iff :
    saltInput x = saltInput y ↔ toAsciiLowercase (trim x) = toAsciiLowercase (trim y) := by
  rw [saltInput, saltInput, List.append_right_inj, utf8_injective.eq_iff]

end Crypto

namespace Addresses

open Crypto

variable (P : Platform)

/-- What Unicode lowercasing does with ASCII letters: their case makes no difference to it, and it
leaves no upper case among them. -/
structure LowersAscii (lower : String → String) : Prop where
  absorbs : ∀ s, lower (toAsciiLowercase s) = lower s
  lowered : ∀ s, toAsciiLowercase (lower s) = lower s

/-- Whoever has registered under the first address is found under the second exactly if a client
hashes the same salt input for the two. -/
def AgreesOn {σ : Type} (exec : ℤ → (c : Call) → σ → Except Error c.Ret × σ) (x y : String) :
    Prop :=
  ∀ now now' db db' id new account, new.email = x →
    exec now (.createAccount id new) db = (.ok account, db') →
      ((exec now' (.accountByEmail y) db').1 = .ok (some account) ↔ saltInput x = saltInput y)

structure Agree (x y : String) : Prop where
  sqlite : AgreesOn (SqliteStore.exec P) x y
  postgres : ∀ textGt, AgreesOn (PostgresStore.exec P textGt) x y

def lowered (email : String) : String := P.toLowercase (trim email)

/-- Trimmed and with their ASCII letters in lower case the addresses are different, but Unicode
lowercasing does not tell them apart. -/
def DifferInWideCase (x y : String) : Prop :=
  toAsciiLowercase (trim x) ≠ toAsciiLowercase (trim y) ∧
    P.toLowercase (toAsciiLowercase (trim x)) = P.toLowercase (toAsciiLowercase (trim y))

def upToNul (s : String) : List Char := s.toList.takeWhile (· ≠ '\x00')

/-- Lowered, the addresses are different, but of one length and the same up to a U+0000. -/
def DifferPastNul (x y : String) : Prop :=
  lowered P x ≠ lowered P y ∧ (lowered P x).utf8ByteSize = (lowered P y).utf8ByteSize ∧
    upToNul (lowered P x) = upToNul (lowered P y)

instance (x y : String) : Decidable (DifferPastNul P x y) := inferInstanceAs (Decidable (_ ∧ _))

variable {P} {emailEq : String → String → Bool} {x y : String}

theorem accountByEmail_iff {κ : Type} {fold : String → κ} {t t' : Tables} {id : String}
    {new : NewAccount} {account : Account} (hfold : ∀ a b, emailEq a b = true ↔ fold a = fold b)
    (hcreate : t.createAccount P emailEq id new = (.ok account, t')) :
    t'.accountByEmail P emailEq y = some account ↔
      fold (lowered P new.email) = fold (lowered P y) := by
  by_cases hfree : t.Free P emailEq id new.email
  · rw [Tables.createAccount_of_free hfree] at hcreate
    obtain ⟨hok, rfl⟩ := Prod.mk.inj hcreate
    obtain rfl := Except.ok.inj hok
    constructor
    · intro hfound
      have hmatch : emailEq (Tables.newAccount P id new).email (P.toLowercase (trim y)) = true := by
        simpa using List.find?_some hfound
      exact (hfold _ _).mp hmatch
    · intro heq
      rw [Tables.accountByEmail, Tables.rows_of_free hfree, List.find?_append,
        List.find?_eq_none.mpr, Option.none_or, List.find?_singleton, if_pos]
      · exact (hfold _ _).mpr heq
      · intro a ha
        have hother := (hfree a ha).2
        rw [← Bool.not_eq_true, hfold] at hother
        rw [hfold]
        exact fun hsame => hother (hsame.trans heq.symm)
  · rw [Tables.createAccount_of_not_free hfree] at hcreate
    cases (Prod.mk.inj hcreate).1

/-! ## The backends -/

theorem found_sqlite_iff {db db' : SqliteDb} {now now' : ℤ} {id : String} {new : NewAccount}
    {account : Account}
    (hcreate : SqliteStore.exec P now (.createAccount id new) db = (.ok account, db')) :
    (SqliteStore.exec P now' (.accountByEmail y) db').1 = .ok (some account) ↔
      SqliteStore.nocase (lowered P new.email) = SqliteStore.nocase (lowered P y) := by
  have htables : db.toTables.createAccount P SqliteStore.emailEq id new =
      (.ok account, db'.toTables) := by
    obtain ⟨hok, rfl⟩ := Prod.mk.inj hcreate
    exact Prod.ext hok rfl
  have hfold (a b : String) := SqliteStore.emailEq_iff (a := a) (b := b)
  rw [← accountByEmail_iff hfold htables]
  exact ⟨Except.ok.inj, congrArg Except.ok⟩

theorem agreesOn_sqlite_iff : AgreesOn (SqliteStore.exec P) x y ↔
    (SqliteStore.nocase (lowered P x) = SqliteStore.nocase (lowered P y) ↔
      saltInput x = saltInput y) := by
  constructor
  · intro h
    let new : NewAccount := ⟨x, "", "", "", "", "", "", ""⟩
    have hfree : Tables.migrated.Free P SqliteStore.emailEq "" new.email := by
      simp [Tables.Free, Tables.migrated]
    have hok := congrArg Prod.fst (Tables.createAccount_of_free hfree)
    have hcreate : SqliteStore.exec P 0 (.createAccount "" new) .migrated =
        (.ok (Tables.newAccount P "" new),
          (SqliteStore.exec P 0 (.createAccount "" new) .migrated).2) := Prod.ext hok rfl
    rw [← h 0 0 _ _ _ new _ rfl hcreate]
    exact (found_sqlite_iff hcreate).symm
  · rintro h now now' db db' id new account rfl hcreate
    rw [found_sqlite_iff hcreate, h]

/-- Who has registered on Postgres has an address without a U+0000, and is looked up under others
without one. -/
theorem agreesOn_postgres (textGt : String → String → Bool)
    (h : lowered P x = lowered P y ↔ saltInput x = saltInput y) :
    AgreesOn (PostgresStore.exec P textGt) x y := by
  rintro now now' db db' id new account rfl hcreate
  have hfree : (Call.createAccount id new).NulFree P := by
    by_contra hnul
    rw [PostgresStore.exec_of_not_nulFree hnul] at hcreate
    cases (Prod.mk.inj hcreate).1
  have htables : db.toTables.createAccount P PostgresStore.emailEq id new =
      (.ok account, db'.toTables) := by
    rw [PostgresStore.exec_of_nulFree hfree] at hcreate
    obtain ⟨hok, rfl⟩ := Prod.mk.inj hcreate
    exact Prod.ext hok rfl
  rw [← h]
  by_cases hlookup : (Call.accountByEmail y).NulFree P
  · rw [PostgresStore.exec_of_nulFree hlookup]
    have hfound := accountByEmail_iff (y := y) (fun _ _ => decide_eq_true_iff) htables
    exact ⟨fun hok => hfound.mp (Except.ok.inj hok), fun heq => congrArg Except.ok (hfound.mpr heq)⟩
  · rw [PostgresStore.exec_of_not_nulFree hlookup]
    refine iff_of_false (by simp) (fun heq => hlookup ?_)
    intro s hs
    obtain rfl := List.mem_singleton.mp hs
    have hnul : '\x00' ∉ (lowered P new.email).toList :=
      hfree _ (List.mem_cons_of_mem _ List.mem_cons_self)
    rw [heq] at hnul
    exact hnul

/-! ## The salt -/

theorem differInWideCase_iff (hlower : LowersAscii P.toLowercase) :
    DifferInWideCase P x y ↔ saltInput x ≠ saltInput y ∧ lowered P x = lowered P y := by
  rw [DifferInWideCase, hlower.absorbs, hlower.absorbs, ne_eq, ne_eq, saltInput_eq_iff]
  rfl

/-- A lowered address has no ASCII letter left that `COLLATE NOCASE` could fold. -/
theorem nocase_lowered (hlower : LowersAscii P.toLowercase) (email : String) :
    SqliteStore.nocase (lowered P email) =
      ((lowered P email).utf8ByteSize, upToNul (lowered P email)) := by
  have hmap : (lowered P email).toList.map Char.toLower = (lowered P email).toList := by
    rw [← String.toList_ofList (l := (lowered P email).toList.map Char.toLower)]
    exact congrArg String.toList (hlower.lowered (trim email))
  have hfolded : ∀ c ∈ (lowered P email).toList, c.toLower = id c :=
    List.map_inj_left.mp (hmap.trans (List.map_id _).symm)
  have hkept : (upToNul (lowered P email)).map Char.toLower = upToNul (lowered P email) :=
    (List.map_congr_left (fun c hc => hfolded c (List.takeWhile_subset _ hc))).trans
      (List.map_id _)
  exact congrArg (Prod.mk _) hkept

theorem differPastNul_iff (hlower : LowersAscii P.toLowercase) :
    DifferPastNul P x y ↔ lowered P x ≠ lowered P y ∧
      SqliteStore.nocase (lowered P x) = SqliteStore.nocase (lowered P y) := by
  rw [DifferPastNul, nocase_lowered hlower, nocase_lowered hlower, Prod.mk_inj]

/-- Addresses with one ASCII lowercase have one Unicode lowercase. -/
theorem lowered_eq_of_saltInput_eq (hlower : LowersAscii P.toLowercase)
    (h : saltInput x = saltInput y) : lowered P x = lowered P y := by
  rw [lowered, ← hlower.absorbs (trim x), saltInput_eq_iff.mp h, hlower.absorbs, lowered]

/-- Server and client agree on a pair of addresses exactly if the pair differs neither in the case
of letters outside ASCII alone nor past a U+0000 alone. -/
theorem agree_iff (P : Platform) (hlower : LowersAscii P.toLowercase) (x y : String) :
    Agree P x y ↔ ¬ DifferInWideCase P x y ∧ ¬ DifferPastNul P x y := by
  have hsame := lowered_eq_of_saltInput_eq (x := x) (y := y) hlower
  rw [differInWideCase_iff hlower, differPastNul_iff hlower]
  constructor
  · rintro ⟨hsqlite, _⟩
    have hiff := agreesOn_sqlite_iff.mp hsqlite
    refine ⟨?_, ?_⟩
    · rintro ⟨hsalt, hserver⟩
      exact hsalt (hiff.mp (congrArg SqliteStore.nocase hserver))
    · rintro ⟨hserver, hnocase⟩
      exact hserver (hsame (hiff.mp hnocase))
  · rintro ⟨hwide, hpast⟩
    have hiff : lowered P x = lowered P y ↔ saltInput x = saltInput y :=
      ⟨fun hserver => by_contra (fun hsalt => hwide ⟨hsalt, hserver⟩), hsame⟩
    refine ⟨agreesOn_sqlite_iff.mpr ?_, fun textGt => agreesOn_postgres textGt hiff⟩
    rw [← hiff]
    exact ⟨fun hnocase => by_contra (fun hserver => hpast ⟨hserver, hnocase⟩),
      congrArg SqliteStore.nocase⟩

/-! ## Addresses of Latin letters -/

/-- `char::to_lowercase` on the letters of ASCII and Latin-1. -/
def latinLower (c : Char) : Char :=
  if 0xC0 ≤ c.toNat ∧ c.toNat ≤ 0xDE ∧ c.toNat ≠ 0xD7 then Char.ofNat (c.toNat + 32)
  else c.toLower

theorem toNat_toLower (c : Char) :
    c.toLower.toNat = if 65 ≤ c.toNat ∧ c.toNat ≤ 90 then c.toNat + 32 else c.toNat := by
  have hiff : (c.val ≥ 'A'.val ∧ c.val ≤ 'Z'.val) ↔ (65 ≤ c.toNat ∧ c.toNat ≤ 90) := by
    rw [ge_iff_le, UInt32.le_iff_toNat_le, UInt32.le_iff_toNat_le]
    rfl
  unfold Char.toLower
  by_cases h : 65 ≤ c.toNat ∧ c.toNat ≤ 90
  · rw [dif_pos (hiff.mpr h), if_pos h]
    change (c.val + 32).toNat = c.val.toNat + 32
    have hbound : c.val.toNat ≤ 90 := h.2
    rw [UInt32.toNat_add]
    exact Nat.mod_eq_of_lt (by change c.val.toNat + 32 < _; omega)
  · rw [dif_neg (fun hc => h (hiff.mp hc)), if_neg h]

theorem toNat_latinLower (c : Char) : (latinLower c).toNat =
    if 0xC0 ≤ c.toNat ∧ c.toNat ≤ 0xDE ∧ c.toNat ≠ 0xD7 then c.toNat + 32
    else if 65 ≤ c.toNat ∧ c.toNat ≤ 90 then c.toNat + 32 else c.toNat := by
  unfold latinLower
  split_ifs with hlatin hascii
  · exact Reference.toNat_ofNat (Or.inl (by omega))
  · rw [toNat_toLower, if_pos hascii]
  · rw [toNat_toLower, if_neg hascii]

theorem latinLower_toLower (c : Char) : latinLower c.toLower = latinLower c := by
  apply Char.toNat_inj.mp
  rw [toNat_latinLower, toNat_latinLower, toNat_toLower]
  split_ifs <;> omega

theorem toLower_latinLower (c : Char) : (latinLower c).toLower = latinLower c := by
  apply Char.toNat_inj.mp
  rw [toNat_toLower, toNat_latinLower]
  split_ifs <;> omega

def latin : Platform :=
  { Platform.reference with toLowercase := fun s => String.ofList (s.toList.map latinLower) }

theorem latin_lowersAscii : LowersAscii latin.toLowercase where
  absorbs s := by
    simp only [latin, toAsciiLowercase, String.toList_ofList, List.map_map]
    exact congrArg String.ofList (List.map_congr_left (fun c _ => latinLower_toLower c))
  lowered s := by
    simp only [latin, toAsciiLowercase, String.toList_ofList, List.map_map]
    exact congrArg String.ofList (List.map_congr_left (fun c _ => toLower_latinLower c))

theorem accented_address_disagrees : ¬ Agree latin "É@example.com" "é@example.com" := by
  intro h
  have hiff := agreesOn_sqlite_iff.mp h.sqlite
  exact absurd (hiff.mp (by decide +kernel)) (by decide +kernel)

theorem ascii_addresses_agree : Agree latin "  Ada@Example.COM " "ada@example.com" :=
  (agree_iff latin latin_lowersAscii _ _).mpr
    ⟨fun hwide => hwide.1 (by decide +kernel), by decide +kernel⟩

/-- Behind a U+0000 SQLite does not look. -/
example : DifferPastNul latin "a@x.y\x00b" "a@x.y\x00c" := by decide +kernel

end Addresses
end RemotierSync
