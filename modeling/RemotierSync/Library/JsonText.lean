import RemotierSync.Library.Json
import Mathlib.Data.List.TakeDrop

/-!
# JSON as text

The compact text of a JSON value, and a reader of the whole grammar. The depth that the reader
still allows goes down with each bracket, so that it is also what the recursion is on. A plain
value is read back from its text (`parse_print`).
-/

namespace RemotierSync.Json

/-! ## Writing -/

def hexDigit (n : ℕ) : Char := n.digitChar

def escapeChar (c : Char) : List Char :=
  match c with
  | '\x22' => ['\\', '\x22']
  | '\\' => ['\\', '\\']
  | '\x08' => ['\\', 'b']
  | '\x0c' => ['\\', 'f']
  | '\n' => ['\\', 'n']
  | '\r' => ['\\', 'r']
  | '\t' => ['\\', 't']
  | c => if c.toNat < 0x20 then
      ['\\', 'u', '0', '0', hexDigit (c.toNat / 16), hexDigit (c.toNat % 16)]
    else [c]

def stringChars (s : String) : List Char :=
  '\x22' :: (s.toList.flatMap escapeChar ++ ['\x22'])

def intChars (n : ℤ) : List Char :=
  if n < 0 then '-' :: Nat.toDigits 10 n.natAbs else Nat.toDigits 10 n.natAbs

mutual

def chars : Json → List Char
  | null => ['n', 'u', 'l', 'l']
  | bool true => ['t', 'r', 'u', 'e']
  | bool false => ['f', 'a', 'l', 's', 'e']
  | int n => intChars n
  | float text => text.toList
  | str s => stringChars s
  | arr items => '[' :: (itemsChars items ++ [']'])
  | obj members => '\x7b' :: (membersChars members ++ ['\x7d'])

def itemsChars : List Json → List Char
  | [] => []
  | [j] => chars j
  | j :: rest => chars j ++ ',' :: itemsChars rest

def membersChars : List (String × Json) → List Char
  | [] => []
  | [(name, j)] => stringChars name ++ ':' :: chars j
  | (name, j) :: rest => stringChars name ++ ':' :: (chars j ++ ',' :: membersChars rest)

end

def print (j : Json) : String := String.ofList (chars j)

/-! ## Reading -/

def isSpace (c : Char) : Bool := c = ' ' || c = '\n' || c = '\t' || c = '\r'

def skipSpace (cs : List Char) : List Char := cs.dropWhile isSpace

def hexVal (c : Char) : Option ℕ :=
  if '0' ≤ c ∧ c ≤ '9' then some (c.toNat - '0'.toNat)
  else if 'a' ≤ c ∧ c ≤ 'f' then some (c.toNat - 'a'.toNat + 10)
  else if 'A' ≤ c ∧ c ≤ 'F' then some (c.toNat - 'A'.toNat + 10)
  else none

def hex4 : List Char → Option (ℕ × List Char)
  | a :: b :: c :: d :: rest => do
    let a ← hexVal a
    let b ← hexVal b
    let c ← hexVal c
    let d ← hexVal d
    return (((a * 16 + b) * 16 + c) * 16 + d, rest)
  | _ => none

/-- What follows a backslash and a `u`. The two halves of a pair come one after the other. -/
def unicode (cs : List Char) : Option (Char × List Char) := do
  let (n, rest) ← hex4 cs
  if 0xd800 ≤ n ∧ n < 0xdc00 then
    match rest with
    | '\\' :: 'u' :: more => do
      let (m, rest) ← hex4 more
      if 0xdc00 ≤ m ∧ m < 0xe000 then
        return (Char.ofNat (0x10000 + (n - 0xd800) * 0x400 + (m - 0xdc00)), rest)
      else none
    | _ => none
  else if 0xdc00 ≤ n ∧ n < 0xe000 then none
  else return (Char.ofNat n, rest)

def escape : List Char → Option (Char × List Char)
  | '\x22' :: cs => some ('\x22', cs)
  | '\\' :: cs => some ('\\', cs)
  | '/' :: cs => some ('/', cs)
  | 'b' :: cs => some ('\x08', cs)
  | 'f' :: cs => some ('\x0c', cs)
  | 'n' :: cs => some ('\n', cs)
  | 'r' :: cs => some ('\r', cs)
  | 't' :: cs => some ('\t', cs)
  | 'u' :: cs => unicode cs
  | _ => none

def parseChar : List Char → Option (Char × List Char)
  | [] => none
  | '\\' :: cs => escape cs
  | c :: cs => if c.toNat < 0x20 then none else some (c, cs)

def stringBody : ℕ → List Char → Option (List Char × List Char)
  | 0, _ => none
  | n + 1, cs =>
    if cs.head? = some '\x22' then some ([], cs.tail)
    else do
      let (c, rest) ← parseChar cs
      let (body, rest) ← stringBody n rest
      return (c :: body, rest)

def parseString : List Char → Option (String × List Char)
  | '\x22' :: cs => (stringBody (cs.length + 1) cs).map (fun p => (String.ofList p.1, p.2))
  | _ => none

def digits (cs : List Char) : Option (List Char × List Char) :=
  if cs.takeWhile Char.isDigit = [] then none
  else some (cs.takeWhile Char.isDigit, cs.dropWhile Char.isDigit)

def fraction : List Char → Option (List Char × List Char)
  | '.' :: cs => (digits cs).map (fun p => ('.' :: p.1, p.2))
  | cs => some ([], cs)

def sign : List Char → List Char × List Char
  | '+' :: cs => (['+'], cs)
  | '-' :: cs => (['-'], cs)
  | cs => ([], cs)

def exponent (cs : List Char) : Option (List Char × List Char) :=
  if cs.head? = some 'e' ∨ cs.head? = some 'E' then
    (digits (sign cs.tail).2).map (fun p => (cs.take 1 ++ (sign cs.tail).1 ++ p.1, p.2))
  else some ([], cs)

/-- An integer that is no word is read as other numbers are, and so is a negative zero. -/
def ofDigits (negative : Bool) (ds : List Char) : Json :=
  let n : ℕ := Nat.ofDigitChars 10 ds 0
  let signed : ℤ := if negative then -n else n
  if IsWord signed ∧ ¬ (negative = true ∧ n = 0) then int signed
  else float (String.ofList (if negative then '-' :: ds else ds))

def magnitude (negative : Bool) (cs : List Char) : Option (Json × List Char) := do
  let (ds, rest) ← digits cs
  if ds.head? = some '0' ∧ ds.length ≠ 1 then none
  let (frac, rest) ← fraction rest
  let (exp, rest) ← exponent rest
  if frac = [] ∧ exp = [] then return (ofDigits negative ds, rest)
  else return (float (String.ofList
    ((if negative then '-' :: ds else ds) ++ frac ++ exp)), rest)

def parseNumber : List Char → Option (Json × List Char)
  | '-' :: cs => magnitude true cs
  | cs => magnitude false cs

section Sequences

variable {α : Type}

/-- One thing at least, with commas between them, up to the closing bracket. -/
def separated (close : Char) (p : List Char → Option (α × List Char)) :
    ℕ → List Char → Option (List α × List Char)
  | 0, _ => none
  | n + 1, cs => do
    let (a, rest) ← p cs
    match skipSpace rest with
    | [] => none
    | c :: rest =>
      if c = close then return ([a], rest)
      else if c = ',' then do
        let (more, rest) ← separated close p n rest
        return (a :: more, rest)
      else none

def bracketed (close : Char) (p : List Char → Option (α × List Char)) (cs : List Char) :
    Option (List α × List Char) :=
  if (skipSpace cs).head? = some close then some ([], (skipSpace cs).tail)
  else separated close p (cs.length + 1) cs

def parseMember (p : List Char → Option (α × List Char)) (cs : List Char) :
    Option ((String × α) × List Char) := do
  let (name, rest) ← parseString (skipSpace cs)
  match skipSpace rest with
  | ':' :: rest => do
    let (a, rest) ← p rest
    return ((name, a), rest)
  | _ => none

end Sequences

def parseScalar : List Char → Option (Json × List Char)
  | 'n' :: 'u' :: 'l' :: 'l' :: rest => some (null, rest)
  | 't' :: 'r' :: 'u' :: 'e' :: rest => some (bool true, rest)
  | 'f' :: 'a' :: 'l' :: 's' :: 'e' :: rest => some (bool false, rest)
  | '\x22' :: rest => (parseString ('\x22' :: rest)).map (fun p => (str p.1, p.2))
  | cs => parseNumber cs

def parseValue : ℕ → List Char → Option (Json × List Char)
  | 0, cs =>
    match skipSpace cs with
    | '[' :: _ => none
    | '\x7b' :: _ => none
    | cs => parseScalar cs
  | depth + 1, cs =>
    match skipSpace cs with
    | '[' :: rest => (bracketed ']' (parseValue depth) rest).map (fun p => (arr p.1, p.2))
    | '\x7b' :: rest =>
      (bracketed '\x7d' (parseMember (parseValue depth)) rest).map (fun p => (obj p.1, p.2))
    | cs => parseScalar cs

def maxDepth : ℕ := 127

/-- The whole text has to be JSON, also where a type ignores what is there. -/
def parse (s : String) : Option Json := do
  let (j, rest) ← parseValue maxDepth s.toList
  if skipSpace rest = [] then return j else none

/-! ## Strings -/

variable {cs ds rest : List Char} {c : Char}

theorem hexVal_hexDigit : ∀ n < 16, hexVal (hexDigit n) = some n := by
  decide

theorem escape_control (h : c.toNat < 0x20) :
    escape ('u' :: '0' :: '0' :: hexDigit (c.toNat / 16) :: hexDigit (c.toNat % 16) :: rest) =
      some (c, rest) := by
  have hzero : hexVal '0' = some 0 := by decide
  have hhigh : hexVal (hexDigit (c.toNat / 16)) = some (c.toNat / 16) :=
    hexVal_hexDigit _ (by omega)
  have hlow : hexVal (hexDigit (c.toNat % 16)) = some (c.toNat % 16) :=
    hexVal_hexDigit _ (by omega)
  have hn : c.toNat / 16 * 16 + c.toNat % 16 = c.toNat := by omega
  have hhex : hex4 ('0' :: '0' :: hexDigit (c.toNat / 16) :: hexDigit (c.toNat % 16) :: rest) =
      some (c.toNat, rest) := by
    simp [hex4, hzero, hhigh, hlow, hn]
  rw [escape, unicode, hhex]
  simp only [Option.bind_eq_bind, Option.bind_some]
  rw [if_neg (by omega), if_neg (by omega), Char.ofNat_toNat]
  rfl

theorem parseChar_escapeChar (c : Char) (rest : List Char) :
    parseChar (escapeChar c ++ rest) = some (c, rest) := by
  unfold escapeChar
  split
  case h_8 hquote hback _ _ _ _ _ =>
    split_ifs with hcontrol
    · exact escape_control hcontrol
    · rw [List.singleton_append, parseChar]
      · exact if_neg hcontrol
      · exact hback
  all_goals rfl

theorem head_escapeChar (c : Char) (rest : List Char) :
    (escapeChar c ++ rest).head? ≠ some '\x22' := by
  unfold escapeChar
  split
  case h_8 hquote _ _ _ _ _ _ =>
    split_ifs
    · simp
    · simpa using hquote
  all_goals simp

theorem stringBody_escaped {n : ℕ} (h : cs.length < n) :
    stringBody n (cs.flatMap escapeChar ++ '\x22' :: rest) = some (cs, rest) := by
  induction cs generalizing n with
  | nil =>
    obtain ⟨n, rfl⟩ := Nat.exists_eq_add_of_lt h
    rfl
  | cons c cs ih =>
    obtain ⟨n, rfl⟩ := Nat.exists_eq_add_of_lt h
    have hbody := ih (n := cs.length + 1 + n) (by omega)
    rw [List.flatMap_cons, List.append_assoc, List.length_cons, stringBody,
      if_neg (head_escapeChar _ _), parseChar_escapeChar]
    simp [hbody]

theorem length_le_escaped (cs : List Char) : cs.length ≤ (cs.flatMap escapeChar).length := by
  induction cs with
  | nil => exact Nat.le_refl _
  | cons c cs ih =>
    have hone : 1 ≤ (escapeChar c).length := by
      unfold escapeChar
      split <;> first | decide | (split_ifs <;> simp)
    rw [List.flatMap_cons, List.length_append, List.length_cons]
    omega

theorem parseString_stringChars (s : String) (rest : List Char) :
    parseString (stringChars s ++ rest) = some (s, rest) := by
  have hlength := length_le_escaped s.toList
  rw [stringChars, List.cons_append, List.append_assoc, List.singleton_append, parseString,
    stringBody_escaped (by rw [List.length_append]; omega)]
  simp

/-! ## Numbers -/

def Ends (rest : List Char) : Prop := ∀ c ∈ rest.head?, c = ',' ∨ c = ']' ∨ c = '\x7d'

theorem digits_append (hne : ds ≠ []) (hds : ∀ c ∈ ds, c.isDigit) (hrest : Ends rest) :
    digits (ds ++ rest) = some (ds, rest) := by
  have hspan : rest.takeWhile Char.isDigit = [] ∧ rest.dropWhile Char.isDigit = rest := by
    cases rest with
    | nil => exact ⟨rfl, rfl⟩
    | cons c rest =>
      have hc : c.isDigit = false := by
        rcases hrest c rfl with rfl | rfl | rfl <;> decide
      simp [hc]
  have htake : (ds ++ rest).takeWhile Char.isDigit = ds := by
    rw [List.takeWhile_append_of_pos hds, hspan.1, List.append_nil]
  rw [digits, htake, if_neg hne, List.dropWhile_append_of_pos hds, hspan.2]

theorem fraction_of_ends (h : Ends rest) : fraction rest = some ([], rest) := by
  cases rest with
  | nil => rfl
  | cons c rest => rcases h c rfl with rfl | rfl | rfl <;> rfl

theorem exponent_of_ends (h : Ends rest) : exponent rest = some ([], rest) := by
  cases rest with
  | nil => rfl
  | cons c rest => rcases h c rfl with rfl | rfl | rfl <;> rfl

theorem head_toDigits (n : ℕ) :
    (Nat.toDigits 10 n).head? = some '0' → n = 0 := by
  induction n using Nat.strongRecOn with
  | ind n ih =>
    by_cases hn : n < 10
    · rw [Nat.toDigits_of_lt_base hn]
      simp
    · rw [Nat.toDigits_of_base_le (by decide) (by omega), List.head?_append]
      intro h
      have hdiv := ih (n / 10) (by omega)
      cases hhead : (Nat.toDigits 10 (n / 10)).head? with
      | none => exact absurd (List.head?_eq_none_iff.mp hhead) Nat.toDigits_ne_nil
      | some c =>
        rw [hhead, Option.some_or] at h
        have := hdiv (hhead.trans h)
        omega

theorem magnitude_toDigits (negative : Bool) (n : ℕ) (hrest : Ends rest) :
    magnitude negative (Nat.toDigits 10 n ++ rest) =
      some (ofDigits negative (Nat.toDigits 10 n), rest) := by
  have hdigits : digits (Nat.toDigits 10 n ++ rest) = some (Nat.toDigits 10 n, rest) :=
    digits_append Nat.toDigits_ne_nil
      (fun c hc => Nat.isDigit_of_mem_toDigits (by decide) (by decide) hc) hrest
  have hzero : ¬ ((Nat.toDigits 10 n).head? = some '0' ∧ (Nat.toDigits 10 n).length ≠ 1) := by
    rintro ⟨hhead, hlength⟩
    obtain rfl := head_toDigits n hhead
    exact hlength (by rw [Nat.toDigits_zero]; rfl)
  rw [magnitude, hdigits]
  simp only [Option.bind_eq_bind, Option.bind_some, if_neg hzero]
  rw [fraction_of_ends hrest]
  simp only [Option.bind_some]
  rw [exponent_of_ends hrest]
  rfl

theorem parseNumber_intChars {n : ℤ} (hn : IsWord n) (hrest : Ends rest) :
    parseNumber (intChars n ++ rest) = some (int n, rest) := by
  unfold intChars
  split_ifs with hneg
  · have hsigned : -(n.natAbs : ℤ) = n := by omega
    have hne : n.natAbs ≠ 0 := by omega
    rw [List.cons_append, parseNumber, magnitude_toDigits true _ hrest, ofDigits]
    simp only [Nat.ofDigitChars_ten_toDigits, if_true, hsigned]
    rw [if_pos ⟨hn, fun h => hne h.2⟩]
  · have hsigned : (n.natAbs : ℤ) = n := by omega
    have hfirst : ∀ ds, Nat.toDigits 10 n.natAbs ++ rest = '-' :: ds → False := by
      intro ds h
      cases hd : Nat.toDigits 10 n.natAbs with
      | nil => exact Nat.toDigits_ne_nil hd
      | cons d more =>
        rw [hd, List.cons_append] at h
        have hdigit : d.isDigit :=
          Nat.isDigit_of_mem_toDigits (b := 10) (by decide) (by decide) (hd ▸ List.mem_cons_self)
        rw [(List.cons.inj h).1] at hdigit
        exact absurd hdigit (by decide)
    rw [parseNumber, magnitude_toDigits false _ hrest, ofDigits]
    · simp only [Nat.ofDigitChars_ten_toDigits, Bool.false_eq_true, if_false, hsigned]
      rw [if_pos ⟨hn, fun h => h.1⟩]
    · exact hfirst

/-! ## Sequences -/

section Sequences

variable {α : Type} {f : α → List Char} {p : List Char → Option (α × List Char)} {l : List α}

/-- The reader `p` reads what `f` writes of `a`, whatever follows. -/
def ReadsBack (f : α → List Char) (p : List Char → Option (α × List Char)) (a : α) : Prop :=
  ∀ rest, Ends rest → p (f a ++ rest) = some (a, rest)

def Opens (cs : List Char) : Prop := ∀ c ∈ cs.head?, ¬ isSpace c ∧ c ≠ ']' ∧ c ≠ '\x7d'

theorem Opens.append (h : Opens cs) (hne : cs ≠ []) : Opens (cs ++ rest) := by
  cases cs with
  | nil => exact absurd rfl hne
  | cons c cs => exact h

theorem skipSpace_of_opens (h : Opens cs) : skipSpace cs = cs := by
  cases cs with
  | nil => rfl
  | cons c cs => exact List.dropWhile_cons_of_neg (h c rfl).1

def commas (f : α → List Char) : List α → List Char
  | [] => []
  | [a] => f a
  | a :: rest => f a ++ ',' :: commas f rest

theorem separated_commas {close : Char} {n : ℕ} (hclose : close = ']' ∨ close = '\x7d')
    (hl : l ≠ []) (hn : l.length ≤ n) (h : ∀ a ∈ l, ReadsBack f p a) :
    separated close p n (commas f l ++ close :: rest) = some (l, rest) := by
  have hends : Ends (close :: rest) := by
    rintro c ⟨⟩
    exact Or.inr hclose
  have hspace : skipSpace (close :: rest) = close :: rest := by
    rcases hclose with rfl | rfl <;> rfl
  induction l generalizing n with
  | nil => exact absurd rfl hl
  | cons a l ih =>
    rw [List.length_cons] at hn
    obtain ⟨n, rfl⟩ : ∃ m, n = m + 1 := ⟨n - 1, by omega⟩
    have hread := h a List.mem_cons_self
    cases l with
    | nil =>
      rw [commas, separated, hread _ hends]
      simp [hspace]
    | cons b l =>
      have hcomma : ',' ≠ close := by rcases hclose with rfl | rfl <;> decide
      have hmore : separated close p n (commas f (b :: l) ++ close :: rest) =
          some (b :: l, rest) :=
        ih (List.cons_ne_nil _ _) (Nat.le_of_succ_le_succ hn)
          (fun x hx => h x (List.mem_cons_of_mem _ hx))
      have hskip : skipSpace (',' :: (commas f (b :: l) ++ close :: rest)) =
          ',' :: (commas f (b :: l) ++ close :: rest) := rfl
      rw [commas, List.append_assoc, List.cons_append, separated, hread _ (by rintro c ⟨⟩; simp)]
      · simp [hskip, hcomma, hmore]
      · exact List.cons_ne_nil _ _

theorem length_le_commas (h : ∀ a ∈ l, f a ≠ []) : l.length ≤ (commas f l).length := by
  induction l with
  | nil => exact Nat.le_refl _
  | cons a l ih =>
    have ha : 1 ≤ (f a).length := List.length_pos_iff.mpr (h a List.mem_cons_self)
    have hl := ih (fun b hb => h b (List.mem_cons_of_mem a hb))
    cases l with
    | nil => exact ha
    | cons b l =>
      rw [commas, List.length_append, List.length_cons (a := a), List.length_cons (a := ',')]
      · omega
      · exact List.cons_ne_nil _ _

theorem bracketed_commas {close : Char} (hclose : close = ']' ∨ close = '\x7d')
    (h : ∀ a ∈ l, ReadsBack f p a) (hne : ∀ a ∈ l, f a ≠ []) (hopen : ∀ a ∈ l, Opens (f a)) :
    bracketed close p (commas f l ++ close :: rest) = some (l, rest) := by
  cases l with
  | nil =>
    have hspace : skipSpace (close :: rest) = close :: rest := by
      rcases hclose with rfl | rfl <;> rfl
    rw [commas, List.nil_append, bracketed, hspace]
    exact if_pos rfl
  | cons a l =>
    have hlength := length_le_commas hne
    have hopens : Opens (commas f (a :: l) ++ close :: rest) := by
      cases l with
      | nil => exact (hopen a List.mem_cons_self).append (hne a List.mem_cons_self)
      | cons b l =>
        rw [commas, List.append_assoc]
        · exact (hopen a List.mem_cons_self).append (hne a List.mem_cons_self)
        · exact List.cons_ne_nil _ _
    have hhead : (skipSpace (commas f (a :: l) ++ close :: rest)).head? ≠ some close := by
      rw [skipSpace_of_opens hopens]
      intro hc
      have := hopens close hc
      tauto
    rw [bracketed, if_neg hhead]
    exact separated_commas hclose (List.cons_ne_nil _ _) (by rw [List.length_append]; omega) h

end Sequences

/-! ## Values -/

theorem itemsChars_eq (items : List Json) : itemsChars items = commas chars items := by
  induction items with
  | nil => rfl
  | cons j items ih =>
    cases items with
    | nil => rfl
    | cons k items => rw [itemsChars, commas, ih] <;> exact List.cons_ne_nil _ _

def memberChars (p : String × Json) : List Char := stringChars p.1 ++ ':' :: chars p.2

theorem membersChars_eq (members : List (String × Json)) :
    membersChars members = commas memberChars members := by
  induction members with
  | nil => rfl
  | cons p members ih =>
    cases members with
    | nil => rfl
    | cons q members =>
      rw [membersChars, commas, ih, memberChars] <;> simp

theorem intChars_eq_cons (n : ℤ) : ∃ c cs, intChars n = c :: cs ∧ (c = '-' ∨ c.isDigit) := by
  unfold intChars
  split_ifs
  · exact ⟨_, _, rfl, Or.inl rfl⟩
  · cases hd : Nat.toDigits 10 n.natAbs with
    | nil => exact absurd hd Nat.toDigits_ne_nil
    | cons d ds =>
      exact ⟨d, ds, rfl, Or.inr (Nat.isDigit_of_mem_toDigits (b := 10) (by decide) (by decide)
        (hd ▸ List.mem_cons_self))⟩

theorem opens_of_digit (h : c = '-' ∨ c.isDigit) : Opens (c :: cs) := by
  rintro d ⟨⟩
  have hne (d : Char) (hd : d ≠ '-' ∧ d.isDigit = false) : c ≠ d := by
    rintro rfl
    rcases h with h | h
    · exact hd.1 h
    · exact absurd h (by simp [hd.2])
  refine ⟨?_, hne _ (by decide), hne _ (by decide)⟩
  simp only [isSpace, Bool.or_eq_true, decide_eq_true_eq, not_or]
  exact ⟨⟨⟨hne _ (by decide), hne _ (by decide)⟩, hne _ (by decide)⟩, hne _ (by decide)⟩

theorem chars_ne_nil {depth : ℕ} {j : Json} (h : Plain depth j) : chars j ≠ [] := by
  cases h with
  | bool b => cases b <;> exact List.cons_ne_nil _ _
  | @int _ n _ =>
    obtain ⟨c, cs, hn, _⟩ := intChars_eq_cons n
    rw [chars, hn]
    exact List.cons_ne_nil _ _
  | _ => rw [chars]; exact List.cons_ne_nil _ _

theorem opens_chars {depth : ℕ} {j : Json} (h : Plain depth j) : Opens (chars j) := by
  cases h with
  | bool b => cases b <;> (rintro c ⟨⟩; decide)
  | @int _ n _ =>
    obtain ⟨c, cs, hn, hc⟩ := intChars_eq_cons n
    rw [chars, hn]
    exact opens_of_digit hc
  | _ => rw [chars]; rintro c ⟨⟩; decide

theorem parseValue_of_scalar {depth : ℕ} (hopen : Opens cs) (harr : cs.head? ≠ some '[')
    (hobj : cs.head? ≠ some '\x7b') : parseValue depth cs = parseScalar cs := by
  cases depth <;> rw [parseValue, skipSpace_of_opens hopen] <;> split <;> simp_all

theorem parseScalar_intChars {n : ℤ} (hn : IsWord n) (hrest : Ends rest) :
    parseScalar (intChars n ++ rest) = some (int n, rest) := by
  rw [← parseNumber_intChars hn hrest]
  obtain ⟨c, cs, heq, hc⟩ := intChars_eq_cons n
  have hne (d : Char) (hd : d ≠ '-' ∧ d.isDigit = false) (rest' : List Char) :
      c :: (cs ++ rest) ≠ d :: rest' := by
    intro h
    obtain ⟨rfl, _⟩ := List.cons.inj h
    rcases hc with hc | hc
    · exact hd.1 hc
    · exact absurd hc (by simp [hd.2])
  rw [heq, List.cons_append, parseScalar]
  · exact fun _ => hne 'n' (by decide) _
  · exact fun _ => hne 't' (by decide) _
  · exact fun _ => hne 'f' (by decide) _
  · exact fun _ => hne '\x22' (by decide) _

theorem readsBack_member {depth : ℕ} {p : String × Json}
    (h : ReadsBack chars (parseValue depth) p.2) :
    ReadsBack memberChars (parseMember (parseValue depth)) p := by
  intro rest hrest
  have hspace : skipSpace (stringChars p.1 ++ (':' :: (chars p.2 ++ rest))) =
      stringChars p.1 ++ (':' :: (chars p.2 ++ rest)) := rfl
  have hcolon : skipSpace (':' :: (chars p.2 ++ rest)) = ':' :: (chars p.2 ++ rest) := rfl
  rw [memberChars, List.append_assoc, List.cons_append, parseMember, hspace,
    parseString_stringChars]
  simp [hcolon, h rest hrest]

/-- A plain value is read back from its text, whatever follows. -/
theorem readsBack_chars {depth : ℕ} {j : Json} (h : Plain depth j) :
    ReadsBack chars (parseValue depth) j := by
  induction h with
  | null =>
    intro rest hrest
    rw [parseValue_of_scalar] <;> first | rfl | (rintro c ⟨⟩; decide) | (intro h; cases h)
  | bool b =>
    intro rest hrest
    cases b <;> rw [parseValue_of_scalar] <;>
      first | rfl | (rintro c ⟨⟩; decide) | (intro h; cases h)
  | @int depth n hn =>
    intro rest hrest
    obtain ⟨c, cs, heq, hc⟩ := intChars_eq_cons n
    have hne (d : Char) (hd : d ≠ '-' ∧ d.isDigit = false) : c ≠ d := by
      rintro rfl
      rcases hc with hc | hc
      · exact hd.1 hc
      · exact absurd hc (by simp [hd.2])
    rw [chars, parseValue_of_scalar, parseScalar_intChars hn hrest]
    · rw [heq]
      exact opens_of_digit hc
    · rw [heq]
      simpa using hne '[' (by decide)
    · rw [heq]
      simpa using hne '\x7b' (by decide)
  | str s =>
    intro rest hrest
    rw [chars, parseValue_of_scalar]
    · have hread := parseString_stringChars s rest
      rw [stringChars, List.cons_append] at hread ⊢
      rw [parseScalar, hread]
      rfl
    · rintro c ⟨⟩
      decide
    · simp [stringChars]
    · simp [stringChars]
  | @arr depth items h ih =>
    intro rest _
    have hitems : bracketed ']' (parseValue depth) (commas chars items ++ ']' :: rest) =
        some (items, rest) :=
      bracketed_commas (Or.inl rfl) ih (fun j hj => chars_ne_nil (h j hj))
        (fun j hj => opens_chars (h j hj))
    have hspace : skipSpace ('[' :: (commas chars items ++ ']' :: rest)) =
        '[' :: (commas chars items ++ ']' :: rest) := rfl
    rw [chars, itemsChars_eq, List.cons_append, List.append_assoc, List.singleton_append,
      parseValue, hspace]
    simp [hitems]
  | @obj depth members h ih =>
    intro rest _
    have hmembers : bracketed '\x7d' (parseMember (parseValue depth))
        (commas memberChars members ++ '\x7d' :: rest) = some (members, rest) :=
      bracketed_commas (Or.inr rfl) (fun p hp => readsBack_member (ih p hp))
        (fun p _ => by simp [memberChars])
        (fun p _ => by rintro c ⟨⟩; decide)
    have hspace : skipSpace ('\x7b' :: (commas memberChars members ++ '\x7d' :: rest)) =
        '\x7b' :: (commas memberChars members ++ '\x7d' :: rest) := rfl
    rw [chars, membersChars_eq, List.cons_append, List.append_assoc, List.singleton_append,
      parseValue, hspace]
    simp [hmembers]

theorem parse_print {j : Json} (h : Plain maxDepth j) : parse (print j) = some j := by
  have hread := readsBack_chars h [] (by rintro c ⟨⟩)
  rw [List.append_nil] at hread
  rw [parse, print, String.toList_ofList, hread]
  rfl

theorem utf8ByteSize_print_le (j : Json) : (print j).utf8ByteSize ≤ 4 * (chars j).length := by
  rw [print]
  induction chars j with
  | nil => simp
  | cons c cs ih =>
    have hc := Char.utf8Size_le_four c
    rw [String.ofList_cons, String.utf8ByteSize_append, String.utf8ByteSize_singleton,
      List.length_cons]
    omega

structure Text where
  print : Json → String
  parse : String → Option Json
  parse_print : ∀ {j}, Plain maxDepth j → parse (print j) = some j

def Text.compact : Text := ⟨Json.print, Json.parse, Json.parse_print⟩

end RemotierSync.Json
