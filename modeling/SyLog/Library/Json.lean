import Mathlib.Data.List.TakeWhile
import SyLog.Library.Decimal

set_option autoImplicit false

/-! # JSON

A reader and a compact writer of JSON texts in bytes. A number is kept as it is written, a string is
its bytes once the escapes are resolved (whatever encoding they are in), and an object keeps its
members in order, repeated names included. `parse_encode`: the reader gets back what the writer was
given. -/

inductive Json where
  | null
  | bool (b : Bool)
  | num (text : List UInt8)
  | str (s : List UInt8)
  | arr (items : List Json)
  | obj (members : List (List UInt8 × Json))

namespace Json

open Decimal

/-- The bytes of an ASCII literal. -/
def ascii (s : String) : List UInt8 := s.toUTF8.data.toList

def quote : UInt8 := 34
def backslash : UInt8 := 92
def comma : UInt8 := 44
def colon : UInt8 := 58
def openBracket : UInt8 := 91
def closeBracket : UInt8 := 93
def openBrace : UInt8 := 123
def closeBrace : UInt8 := 125

/-! ## Reading -/

def isSpace (b : UInt8) : Bool := b = 32 || b = 9 || b = 10 || b = 13

def skipSpace (s : List UInt8) : List UInt8 := s.dropWhile isSpace

/-- What follows the byte `c`, which may have space before it. -/
def expect (c : UInt8) (s : List UInt8) : Option (List UInt8) :=
  match skipSpace s with
  | [] => none
  | b :: bs => if b = c then some bs else none

/-! ### Numbers -/

/-- `[eE][+-]?[0-9]+` or nothing -/
def isExponent : List UInt8 → Bool
  | [] => true
  | c :: s =>
      let digits := match s with
        | [] => []
        | d :: ds => if d = 43 || d = 45 then ds else d :: ds
      (c = 101 || c = 69) && !digits.isEmpty && digits.all isDigit

/-- `\\.[0-9]+` or nothing, then an exponent -/
def isFraction : List UInt8 → Bool
  | [] => true
  | c :: s =>
      if c = 46 then !(s.takeWhile isDigit).isEmpty && isExponent (s.dropWhile isDigit)
      else isExponent (c :: s)

/-- `0` or digits that do not start with a zero -/
def isInteger (digits : List UInt8) : Bool :=
  decide (digits = [48]) || (!digits.isEmpty && decide (digits.head? ≠ some 48))

def isUnsigned (s : List UInt8) : Bool :=
  isInteger (s.takeWhile isDigit) && isFraction (s.dropWhile isDigit)

/-- `number` of the JSON grammar -/
def isNumber : List UInt8 → Bool
  | [] => false
  | b :: bs => if b = 45 then isUnsigned bs else isUnsigned (b :: bs)

/-- The bytes that occur in numbers; no other token of the grammar can follow a number with one. -/
def isNumberByte (b : UInt8) : Bool :=
  isDigit b || b = 43 || b = 45 || b = 46 || b = 69 || b = 101

def parseNumber (s : List UInt8) : Option (Json × List UInt8) :=
  let text := s.takeWhile isNumberByte
  if isNumber text then some (.num text, s.dropWhile isNumberByte) else none

/-! ### Strings -/

def hexValue (b : UInt8) : Option Nat :=
  if isDigit b then some (b.toNat - 48)
  else if 97 ≤ b && b ≤ 102 then some (b.toNat - 87)
  else if 65 ≤ b && b ≤ 70 then some (b.toNat - 55)
  else none

/-- Four hexadecimal digits. -/
def hex4 : List UInt8 → Option (Nat × List UInt8)
  | a :: b :: c :: d :: rest => do
      let a ← hexValue a
      let b ← hexValue b
      let c ← hexValue c
      let d ← hexValue d
      some (4096 * a + 256 * b + 16 * c + d, rest)
  | _ => none

/-- The UTF-8 encoding of a code point. -/
def utf8 (n : Nat) : List UInt8 :=
  if n < 0x80 then [n.toUInt8]
  else if n < 0x800 then [(0xC0 + n / 64).toUInt8, (0x80 + n % 64).toUInt8]
  else if n < 0x10000 then
    [(0xE0 + n / 4096).toUInt8, (0x80 + n / 64 % 64).toUInt8, (0x80 + n % 64).toUInt8]
  else
    [(0xF0 + n / 262144).toUInt8, (0x80 + n / 4096 % 64).toUInt8, (0x80 + n / 64 % 64).toUInt8,
      (0x80 + n % 64).toUInt8]

/-- What follows `\\u`: a code point, or the two halves of a surrogate pair. -/
def unescapeUnicode (s : List UInt8) : Option (List UInt8 × List UInt8) := do
  let (u, s) ← hex4 s
  if u < 0xD800 || 0xDFFF < u then some (utf8 u, s)
  else if 0xDBFF < u then none
  else
    match s with
    | b :: c :: s =>
        if b = backslash && c = 117 then do
          let (v, s) ← hex4 s
          if v < 0xDC00 || 0xDFFF < v then none
          else some (utf8 (0x10000 + 1024 * (u - 0xD800) + (v - 0xDC00)), s)
        else none
    | _ => none

/-- What follows a backslash, as the bytes that it stands for. -/
def unescape : List UInt8 → Option (List UInt8 × List UInt8)
  | [] => none
  | c :: s =>
      if c = quote || c = backslash || c = 47 then some ([c], s)
      else if c = 98 then some ([8], s)
      else if c = 102 then some ([12], s)
      else if c = 110 then some ([10], s)
      else if c = 114 then some ([13], s)
      else if c = 116 then some ([9], s)
      else if c = 117 then unescapeUnicode s
      else none

/-- The rest of a string behind its opening quote. -/
def parseChars : Nat → List UInt8 → Option (List UInt8 × List UInt8)
  | 0, _ => none
  | _ + 1, [] => none
  | fuel + 1, b :: bs =>
      if b = quote then some ([], bs)
      else if b = backslash then do
        let (c, s) ← unescape bs
        let (cs, s) ← parseChars fuel s
        some (c ++ cs, s)
      else if b < 32 then none
      else do
        let (cs, s) ← parseChars fuel bs
        some (b :: cs, s)

def parseString (s : List UInt8) : Option (List UInt8 × List UInt8) := parseChars (s.length + 1) s

/-! ### Values -/

/-- One of the three names. -/
def parseName (name : String) (j : Json) (s : List UInt8) : Option (Json × List UInt8) :=
  if ascii name <+: s then some (j, s.drop (ascii name).length) else none

mutual

def parseValue : Nat → List UInt8 → Option (Json × List UInt8)
  | 0, _ => none
  | fuel + 1, s =>
      match skipSpace s with
      | [] => none
      | b :: bs =>
          if b = quote then (parseString bs).map (fun r => (.str r.1, r.2))
          else if b = openBracket then
            match expect closeBracket bs with
            | some rest => some (.arr [], rest)
            | none => (parseItems fuel bs).map (fun r => (.arr r.1, r.2))
          else if b = openBrace then
            match expect closeBrace bs with
            | some rest => some (.obj [], rest)
            | none => (parseMembers fuel bs).map (fun r => (.obj r.1, r.2))
          else if b = 110 then parseName "null" .null (b :: bs)
          else if b = 116 then parseName "true" (.bool true) (b :: bs)
          else if b = 102 then parseName "false" (.bool false) (b :: bs)
          else parseNumber (b :: bs)

/-- At least one item, and the closing bracket. -/
def parseItems : Nat → List UInt8 → Option (List Json × List UInt8)
  | 0, _ => none
  | fuel + 1, s => do
      let (item, s) ← parseValue fuel s
      match expect closeBracket s with
      | some rest => some ([item], rest)
      | none =>
          let s ← expect comma s
          let (items, s) ← parseItems fuel s
          some (item :: items, s)

/-- At least one member, and the closing brace. -/
def parseMembers : Nat → List UInt8 → Option (List (List UInt8 × Json) × List UInt8)
  | 0, _ => none
  | fuel + 1, s => do
      let s ← expect quote s
      let (name, s) ← parseString s
      let s ← expect colon s
      let (value, s) ← parseValue fuel s
      match expect closeBrace s with
      | some rest => some ([(name, value)], rest)
      | none =>
          let s ← expect comma s
          let (members, s) ← parseMembers fuel s
          some ((name, value) :: members, s)

end

/-- A JSON text: one value with space around it. -/
def parse (s : List UInt8) : Option Json := do
  let (j, s) ← parseValue (s.length + 1) s
  if skipSpace s = [] then some j else none

/-! ## Writing -/

def hexDigit (d : Nat) : UInt8 := if d < 10 then digitByte d else (87 + d).toUInt8

/-- The bytes that stand for `b` in a string. -/
def escapeByte (b : UInt8) : List UInt8 :=
  if b = quote then [backslash, quote]
  else if b = backslash then [backslash, backslash]
  else if b = 8 then [backslash, 98]
  else if b = 12 then [backslash, 102]
  else if b = 10 then [backslash, 110]
  else if b = 13 then [backslash, 114]
  else if b = 9 then [backslash, 116]
  else if b < 32 then
    [backslash, 117, hexDigit 0, hexDigit 0, hexDigit (b.toNat / 16), hexDigit (b.toNat % 16)]
  else [b]

def encodeString (s : List UInt8) : List UInt8 := quote :: (s.flatMap escapeByte ++ [quote])

mutual

def encode : Json → List UInt8
  | .null => ascii "null"
  | .bool true => ascii "true"
  | .bool false => ascii "false"
  | .num text => text
  | .str s => encodeString s
  | .arr items => openBracket :: (encodeItems items ++ [closeBracket])
  | .obj members => openBrace :: (encodeMembers members ++ [closeBrace])

def encodeItems : List Json → List UInt8
  | [] => []
  | item :: items => encode item ++ encodeMoreItems items

def encodeMoreItems : List Json → List UInt8
  | [] => []
  | item :: items => comma :: (encode item ++ encodeMoreItems items)

def encodeMembers : List (List UInt8 × Json) → List UInt8
  | [] => []
  | (name, value) :: members =>
      encodeString name ++ colon :: (encode value ++ encodeMoreMembers members)

def encodeMoreMembers : List (List UInt8 × Json) → List UInt8
  | [] => []
  | (name, value) :: members =>
      comma :: (encodeString name ++ colon :: (encode value ++ encodeMoreMembers members))

end

/-! ## Numbers are read back -/

mutual

/-- The numbers are numbers of the grammar. -/
def WellFormed : Json → Prop
  | .num text => isNumber text = true
  | .arr items => WellFormedItems items
  | .obj members => WellFormedMembers members
  | _ => True

def WellFormedItems : List Json → Prop
  | [] => True
  | item :: items => item.WellFormed ∧ WellFormedItems items

def WellFormedMembers : List (List UInt8 × Json) → Prop
  | [] => True
  | (_, value) :: members => value.WellFormed ∧ WellFormedMembers members

end

theorem wellFormedMembers_append {ms ns : List (List UInt8 × Json)} (hm : WellFormedMembers ms)
    (hn : WellFormedMembers ns) : WellFormedMembers (ms ++ ns) := by
  induction ms with
  | nil => exact hn
  | cons m ms ih => exact ⟨hm.1, ih hm.2⟩

/-- No number goes on with `rest`. -/
def Follows (rest : List UInt8) : Prop := ∀ b ∈ rest.head?, isNumberByte b = false

theorem isNumberByte_of_isDigit {b : UInt8} (h : isDigit b = true) : isNumberByte b = true := by
  simp [isNumberByte, h]

theorem isNumberByte_of_isExponent {s : List UInt8} (h : isExponent s = true) :
    ∀ b ∈ s, isNumberByte b = true := by
  cases s with
  | nil => simp
  | cons c s =>
      have hdigits : ∀ ds : List UInt8, ds.all isDigit = true → ∀ b ∈ ds, isNumberByte b = true :=
        fun ds hds b hb => isNumberByte_of_isDigit (List.all_eq_true.1 hds b hb)
      cases s with
      | nil => simp [isExponent] at h
      | cons d ds =>
          simp only [isExponent, Bool.and_eq_true, Bool.or_eq_true, decide_eq_true_eq] at h
          obtain ⟨⟨hc, -⟩, hall⟩ := h
          have hc' : isNumberByte c = true := by
            rcases hc with rfl | rfl <;> decide
          intro b hb
          rcases List.mem_cons.1 hb with rfl | hb
          · exact hc'
          · split at hall
            · next hd =>
                rcases List.mem_cons.1 hb with rfl | hb
                · rcases hd with rfl | rfl <;> decide
                · exact hdigits ds hall b hb
            · exact hdigits (d :: ds) hall b hb

theorem isNumberByte_of_isFraction {s : List UInt8} (h : isFraction s = true) :
    ∀ b ∈ s, isNumberByte b = true := by
  cases s with
  | nil => simp
  | cons c s =>
      rw [isFraction] at h
      split at h
      · next hc =>
          subst hc
          rw [Bool.and_eq_true] at h
          intro b hb
          rcases List.mem_cons.1 hb with rfl | hb
          · decide
          · rw [← List.takeWhile_append_dropWhile (p := isDigit) (l := s), List.mem_append] at hb
            rcases hb with hb | hb
            · exact isNumberByte_of_isDigit (List.mem_takeWhile_imp hb)
            · exact isNumberByte_of_isExponent h.2 b hb
      · exact isNumberByte_of_isExponent h

theorem isNumberByte_of_isUnsigned {s : List UInt8} (h : isUnsigned s = true) :
    ∀ b ∈ s, isNumberByte b = true := by
  rw [isUnsigned, Bool.and_eq_true] at h
  intro b hb
  rw [← List.takeWhile_append_dropWhile (p := isDigit) (l := s), List.mem_append] at hb
  rcases hb with hb | hb
  · exact isNumberByte_of_isDigit (List.mem_takeWhile_imp hb)
  · exact isNumberByte_of_isFraction h.2 b hb

theorem isNumberByte_of_isNumber {s : List UInt8} (h : isNumber s = true) :
    ∀ b ∈ s, isNumberByte b = true := by
  cases s with
  | nil => simp
  | cons c s =>
      rw [isNumber] at h
      split at h
      · next hc =>
          subst hc
          intro b hb
          rcases List.mem_cons.1 hb with rfl | hb
          · decide
          · exact isNumberByte_of_isUnsigned h b hb
      · exact isNumberByte_of_isUnsigned h

/-- A number starts with a sign or a digit. -/
theorem isNumber_head {b : UInt8} {s : List UInt8} (h : isNumber (b :: s) = true) :
    b = 45 ∨ isDigit b = true := by
  rw [isNumber] at h
  split at h
  · next hb => exact Or.inl hb
  · right
    rw [isUnsigned, Bool.and_eq_true] at h
    by_contra hd
    rw [List.takeWhile_cons_of_neg hd] at h
    exact absurd h.1 (by decide)

theorem parseNumber_append {text rest : List UInt8} (h : isNumber text = true)
    (hrest : Follows rest) : parseNumber (text ++ rest) = some (.num text, rest) := by
  have hbytes := isNumberByte_of_isNumber h
  have hstop : rest.takeWhile isNumberByte = [] ∧ rest.dropWhile isNumberByte = rest := by
    cases rest with
    | nil => exact ⟨rfl, rfl⟩
    | cons b bs =>
        have hb := hrest b rfl
        exact ⟨List.takeWhile_cons_of_neg (by simp [hb]), List.dropWhile_cons_of_neg (by simp [hb])⟩
  rw [parseNumber, List.takeWhile_append_of_pos hbytes, List.dropWhile_append_of_pos hbytes,
    hstop.1, hstop.2, List.append_nil, if_pos h]

/-! ## Strings are read back -/

theorem hexValue_hexDigit : ∀ d < 16, hexValue (hexDigit d) = some d := by
  decide

/-- The six bytes that stand for a control character. -/
theorem unescapeUnicode_control {b : UInt8} (hb : b < 32) (s : List UInt8) :
    unescapeUnicode (hexDigit 0 :: hexDigit 0 :: hexDigit (b.toNat / 16) ::
      hexDigit (b.toNat % 16) :: s) = some ([b], s) := by
  have hlt : b.toNat < 32 := hb
  have h0 := hexValue_hexDigit 0 (by omega)
  have h1 := hexValue_hexDigit (b.toNat / 16) (by omega)
  have h2 := hexValue_hexDigit (b.toNat % 16) (by omega)
  have hvalue : 4096 * 0 + 256 * 0 + 16 * (b.toNat / 16) + b.toNat % 16 = b.toNat := by omega
  have hutf8 : utf8 b.toNat = [b] := by
    rw [utf8, if_pos (by omega)]
    simp
  have hunit : (decide (b.toNat < 0xD800) || decide (0xDFFF < b.toNat)) = true := by
    simp only [Bool.or_eq_true, decide_eq_true_eq]
    omega
  simp only [unescapeUnicode, hex4, h0, h1, h2, Option.bind_eq_bind, Option.bind_some, hvalue,
    hunit, if_true, hutf8]

/-- What stands for a byte in a string: a pair that is read back as the byte, the code of a control
    character, or the byte. -/
theorem escapeByte_cases (b : UInt8) :
    (∃ c, 32 ≤ c ∧ escapeByte b = [backslash, c] ∧ ∀ s, unescape (c :: s) = some ([b], s)) ∨
    (b < 32 ∧ escapeByte b = [backslash, 117, hexDigit 0, hexDigit 0, hexDigit (b.toNat / 16),
      hexDigit (b.toNat % 16)]) ∨
    (b ≠ quote ∧ b ≠ backslash ∧ 32 ≤ b ∧ escapeByte b = [b]) := by
  by_cases hquote : b = quote
  · exact Or.inl ⟨quote, by decide, by rw [hquote]; rfl, fun s => by rw [hquote]; rfl⟩
  by_cases hback : b = backslash
  · exact Or.inl ⟨backslash, by decide, by rw [hback]; rfl, fun s => by rw [hback]; rfl⟩
  by_cases h8 : b = 8
  · exact Or.inl ⟨98, by decide, by rw [h8]; rfl, fun s => by rw [h8]; rfl⟩
  by_cases h12 : b = 12
  · exact Or.inl ⟨102, by decide, by rw [h12]; rfl, fun s => by rw [h12]; rfl⟩
  by_cases h10 : b = 10
  · exact Or.inl ⟨110, by decide, by rw [h10]; rfl, fun s => by rw [h10]; rfl⟩
  by_cases h13 : b = 13
  · exact Or.inl ⟨114, by decide, by rw [h13]; rfl, fun s => by rw [h13]; rfl⟩
  by_cases h9 : b = 9
  · exact Or.inl ⟨116, by decide, by rw [h9]; rfl, fun s => by rw [h9]; rfl⟩
  unfold escapeByte
  rw [if_neg hquote, if_neg hback, if_neg h8, if_neg h12, if_neg h10, if_neg h13, if_neg h9]
  by_cases hlow : b < 32
  · exact Or.inr (Or.inl ⟨hlow, if_pos hlow⟩)
  · exact Or.inr (Or.inr ⟨hquote, hback, UInt8.not_lt.1 hlow, if_neg hlow⟩)

/-- An escaped byte is read back, whatever follows. -/
theorem parseChars_escapeByte (fuel : Nat) (b : UInt8) (s : List UInt8) :
    parseChars (fuel + 1) (escapeByte b ++ s) =
      (parseChars fuel s).map (fun r => (b :: r.1, r.2)) := by
  have hback : ∀ (c : UInt8) (t : List UInt8), unescape (c :: t) = some ([b], s) →
      parseChars (fuel + 1) (backslash :: c :: t) =
        (parseChars fuel s).map (fun r => (b :: r.1, r.2)) := by
    intro c t h
    have hq : ¬ backslash = quote := by decide
    rw [parseChars, if_neg hq, if_pos rfl, h]
    show (parseChars fuel s).bind (fun r => some ([b] ++ r.1, r.2)) = _
    cases parseChars fuel s <;> rfl
  rcases escapeByte_cases b with ⟨c, -, hpair, hread⟩ | ⟨hlow, hcode⟩ | ⟨hq, hb, hhigh, hself⟩
  · rw [hpair]
    exact hback c s (hread s)
  · rw [hcode]
    exact hback 117 _ (unescapeUnicode_control hlow s)
  · rw [hself, List.singleton_append, parseChars, if_neg hq, if_neg hb,
      if_neg (UInt8.not_lt.2 hhigh)]
    cases parseChars fuel s <;> rfl

theorem length_escapeByte (b : UInt8) : 1 ≤ (escapeByte b).length := by
  rcases escapeByte_cases b with ⟨c, -, hpair, -⟩ | ⟨-, hcode⟩ | ⟨-, -, -, hself⟩
  · simp [hpair]
  · simp [hcode]
  · simp [hself]

theorem parseChars_encoded (s rest : List UInt8) (fuel : Nat)
    (hfuel : (s.flatMap escapeByte).length < fuel) :
    parseChars fuel (s.flatMap escapeByte ++ quote :: rest) = some (s, rest) := by
  induction s generalizing fuel with
  | nil =>
      obtain ⟨fuel, rfl⟩ : ∃ n, fuel = n + 1 := ⟨fuel - 1, by omega⟩
      rw [List.flatMap_nil, List.nil_append, parseChars, if_pos rfl]
  | cons b s ih =>
      rw [List.flatMap_cons, List.length_append] at hfuel
      have hb := length_escapeByte b
      obtain ⟨fuel, rfl⟩ : ∃ n, fuel = n + 1 := ⟨fuel - 1, by omega⟩
      rw [List.flatMap_cons, List.append_assoc, parseChars_escapeByte, ih fuel (by omega)]
      rfl

/-- A string is read back behind its opening quote. -/
theorem parseString_encoded (s rest : List UInt8) :
    parseString (s.flatMap escapeByte ++ quote :: rest) = some (s, rest) := by
  refine parseChars_encoded s rest _ ?_
  rw [List.length_append, List.length_cons]
  omega

/-! ## Values are read back -/

theorem skipSpace_cons {b : UInt8} (hb : isSpace b = false) (s : List UInt8) :
    skipSpace (b :: s) = b :: s := by
  rw [skipSpace, List.dropWhile_cons_of_neg (by simp [hb])]

theorem expect_self {c : UInt8} (hc : isSpace c = false) (s : List UInt8) :
    expect c (c :: s) = some s := by
  rw [expect, skipSpace_cons hc]
  simp

theorem expect_of_ne {b c : UInt8} (hb : isSpace b = false) (h : b ≠ c) (s : List UInt8) :
    expect c (b :: s) = none := by
  rw [expect, skipSpace_cons hb]
  simp [h]

theorem parseName_append (name : String) (j : Json) (rest : List UInt8) :
    parseName name j (ascii name ++ rest) = some (j, rest) := by
  rw [parseName, if_pos (List.prefix_append _ _), List.drop_left]

theorem ne_of_isDigit {b c : UInt8} (hb : isDigit b = true) (hc : isDigit c = false) : b ≠ c := by
  rintro rfl
  exact absurd hb (by simp [hc])

theorem isSpace_of_isDigit {b : UInt8} (hb : isDigit b = true) : isSpace b = false := by
  simp [isSpace, ne_of_isDigit hb (c := 32) (by decide), ne_of_isDigit hb (c := 9) (by decide),
    ne_of_isDigit hb (c := 10) (by decide), ne_of_isDigit hb (c := 13) (by decide)]

/-- A value starts with a byte that is neither space nor the end of an array. -/
theorem encode_head {j : Json} (hj : j.WellFormed) :
    ∃ b bs, encode j = b :: bs ∧ isSpace b = false ∧ b ≠ closeBracket := by
  cases j with
  | null => exact ⟨110, _, rfl, by decide, by decide⟩
  | bool b =>
      cases b with
      | true => exact ⟨116, _, rfl, by decide, by decide⟩
      | false => exact ⟨102, _, rfl, by decide, by decide⟩
  | str s => exact ⟨quote, _, rfl, by decide, by decide⟩
  | arr items => exact ⟨openBracket, _, rfl, by decide, by decide⟩
  | obj members => exact ⟨openBrace, _, rfl, by decide, by decide⟩
  | num text =>
      cases text with
      | nil => exact absurd hj (by simp [WellFormed, isNumber])
      | cons b bs =>
          refine ⟨b, bs, rfl, ?_⟩
          rcases isNumber_head hj with rfl | hd
          · exact ⟨by decide, by decide⟩
          · exact ⟨isSpace_of_isDigit hd, ne_of_isDigit hd (by decide)⟩

theorem parseValue_num {text rest : List UInt8} (fuel : Nat) (h : isNumber text = true)
    (hrest : Follows rest) :
    parseValue (fuel + 1) (text ++ rest) = some (.num text, rest) := by
  have hparse := parseNumber_append h hrest
  cases text with
  | nil => exact absurd h (by decide)
  | cons b bs =>
      have hb : ∀ c : UInt8, isDigit c = false → c ≠ 45 → b ≠ c := by
        intro c hc hc'
        rcases isNumber_head h with rfl | hd
        · exact hc'.symm
        · exact ne_of_isDigit hd hc
      have hspace : isSpace b = false := by
        rcases isNumber_head h with rfl | hd
        · decide
        · exact isSpace_of_isDigit hd
      rw [List.cons_append] at hparse ⊢
      rw [parseValue, skipSpace_cons hspace]
      simp only [hb quote (by decide) (by decide), hb openBracket (by decide) (by decide),
        hb openBrace (by decide) (by decide), hb 110 (by decide) (by decide),
        hb 116 (by decide) (by decide), hb 102 (by decide) (by decide), if_false, hparse]

theorem follows_of_not {b : UInt8} (hb : isNumberByte b = false) (s : List UInt8) :
    Follows (b :: s) := by
  intro c hc
  obtain rfl : b = c := Option.some.inj hc
  exact hb

/-! ### Steps of the reader -/

section Steps

variable (fuel : Nat) {s t rest : List UInt8}

theorem parseValue_string (name : List UInt8) :
    parseValue (fuel + 1) (encodeString name ++ rest) = some (.str name, rest) := by
  have hs := parseString_encoded name rest
  rw [encodeString, List.cons_append, List.append_assoc, List.singleton_append]
  show (parseString _).map _ = _
  rw [hs]
  rfl

theorem parseValue_items {items : List Json} (hs : expect closeBracket s = none)
    (h : parseItems fuel s = some (items, rest)) :
    parseValue (fuel + 1) (openBracket :: s) = some (.arr items, rest) := by
  rw [parseValue, skipSpace_cons (by decide)]
  simp only [hs, h]
  rfl

theorem parseValue_members {members : List (List UInt8 × Json)} (hs : expect closeBrace s = none)
    (h : parseMembers fuel s = some (members, rest)) :
    parseValue (fuel + 1) (openBrace :: s) = some (.obj members, rest) := by
  rw [parseValue, skipSpace_cons (by decide)]
  simp only [hs, h]
  rfl

theorem parseItems_last {item : Json} (h : parseValue fuel s = some (item, closeBracket :: rest)) :
    parseItems (fuel + 1) s = some ([item], rest) := by
  have hclose := expect_self (c := closeBracket) (by decide) rest
  rw [parseItems, h]
  simp only [Option.bind_eq_bind, Option.bind_some, hclose]

theorem parseItems_more {item : Json} {items : List Json}
    (h : parseValue fuel s = some (item, comma :: t))
    (ht : parseItems fuel t = some (items, rest)) :
    parseItems (fuel + 1) s = some (item :: items, rest) := by
  have hclose := expect_of_ne (b := comma) (c := closeBracket) (by decide) (by decide) t
  have hcomma := expect_self (c := comma) (by decide) t
  rw [parseItems, h]
  simp only [Option.bind_eq_bind, Option.bind_some, hclose, hcomma, ht]

/-- A member up to its value. -/
theorem parseMembers_name (name : List UInt8) :
    parseMembers (fuel + 1) (encodeString name ++ colon :: s) =
      (parseValue fuel s).bind (fun r =>
        match expect closeBrace r.2 with
        | some rest => some ([(name, r.1)], rest)
        | none =>
            (expect comma r.2).bind (fun t =>
              (parseMembers fuel t).bind (fun q => some ((name, r.1) :: q.1, q.2)))) := by
  have hquote := expect_self (c := quote) (by decide)
    (name.flatMap escapeByte ++ quote :: colon :: s)
  have hcolon := expect_self (c := colon) (by decide) s
  rw [encodeString, List.cons_append, List.append_assoc, List.singleton_append, parseMembers]
  simp only [Option.bind_eq_bind, hquote, Option.bind_some, parseString_encoded, hcolon]

theorem parseMembers_last {name : List UInt8} {value : Json}
    (h : parseValue fuel s = some (value, closeBrace :: rest)) :
    parseMembers (fuel + 1) (encodeString name ++ colon :: s) = some ([(name, value)], rest) := by
  have hclose := expect_self (c := closeBrace) (by decide) rest
  rw [parseMembers_name, h]
  simp only [Option.bind_some, hclose]

theorem parseMembers_more {name : List UInt8} {value : Json}
    {members : List (List UInt8 × Json)} (h : parseValue fuel s = some (value, comma :: t))
    (ht : parseMembers fuel t = some (members, rest)) :
    parseMembers (fuel + 1) (encodeString name ++ colon :: s) =
      some ((name, value) :: members, rest) := by
  have hclose := expect_of_ne (b := comma) (c := closeBrace) (by decide) (by decide) t
  have hcomma := expect_self (c := comma) (by decide) t
  rw [parseMembers_name, h]
  simp only [Option.bind_some, hclose, hcomma, ht]

end Steps

/-- **The reader gets back what the writer was given**: a value in front of anything that does not
    continue a number, at least one item in front of a closing bracket, at least one member in front
    of a closing brace. -/
theorem parse_encoded (fuel : Nat) :
    (∀ j rest, WellFormed j → Follows rest → (encode j).length < fuel →
      parseValue fuel (encode j ++ rest) = some (j, rest)) ∧
    (∀ item items rest, WellFormedItems (item :: items) →
      (encodeItems (item :: items)).length + 1 < fuel →
      parseItems fuel (encodeItems (item :: items) ++ closeBracket :: rest) =
        some (item :: items, rest)) ∧
    (∀ name value members rest, WellFormedMembers ((name, value) :: members) →
      (encodeMembers ((name, value) :: members)).length + 1 < fuel →
      parseMembers fuel (encodeMembers ((name, value) :: members) ++ closeBrace :: rest) =
        some ((name, value) :: members, rest)) := by
  induction fuel with
  | zero => exact ⟨by omega, by omega, by omega⟩
  | succ fuel ih =>
      obtain ⟨ihValue, ihItems, ihMembers⟩ := ih
      refine ⟨?_, ?_, ?_⟩
      · intro j rest hj hrest hfuel
        cases j with
        | null => exact parseName_append "null" .null rest
        | bool b =>
            cases b with
            | true => exact parseName_append "true" (.bool true) rest
            | false => exact parseName_append "false" (.bool false) rest
        | num text => exact parseValue_num fuel hj hrest
        | str s => exact parseValue_string fuel s
        | arr items =>
            rw [encode, List.cons_append, List.append_assoc, List.singleton_append]
            rw [encode, List.length_cons, List.length_append, List.length_singleton] at hfuel
            cases items with
            | nil => rfl
            | cons item items =>
                obtain ⟨b, bs, hhead, hb, hne⟩ := encode_head hj.1
                refine parseValue_items fuel ?_ (ihItems item items rest hj (by omega))
                rw [encodeItems, hhead]
                exact expect_of_ne hb hne _
        | obj members =>
            rw [encode, List.cons_append, List.append_assoc, List.singleton_append]
            rw [encode, List.length_cons, List.length_append, List.length_singleton] at hfuel
            cases members with
            | nil => rfl
            | cons member members =>
                obtain ⟨name, value⟩ := member
                refine parseValue_members fuel ?_ (ihMembers name value members rest hj (by omega))
                exact expect_of_ne (by decide) (by decide) _
      · intro item items rest hitems hfuel
        rw [encodeItems, List.length_append] at hfuel
        rw [encodeItems, List.append_assoc]
        cases items with
        | nil =>
            exact parseItems_last fuel
              (ihValue item _ hitems.1 (follows_of_not (by decide) rest) (by omega))
        | cons next items =>
            obtain ⟨b, bs, hhead, -⟩ := encode_head hitems.1
            have hmore : encodeMoreItems (next :: items) =
                comma :: encodeItems (next :: items) := rfl
            rw [hmore, hhead, List.length_cons, List.length_cons] at hfuel
            rw [hmore]
            refine parseItems_more fuel
              (ihValue item _ hitems.1 (follows_of_not (by decide) _) ?_)
              (ihItems next items rest hitems.2 (by omega))
            rw [hhead, List.length_cons]
            omega
      · intro name value members rest hmembers hfuel
        rw [encodeMembers, List.length_append, List.length_cons, List.length_append] at hfuel
        rw [encodeMembers, List.append_assoc, List.cons_append, List.append_assoc]
        cases members with
        | nil =>
            exact parseMembers_last fuel
              (ihValue value _ hmembers.1 (follows_of_not (by decide) rest) (by omega))
        | cons next members =>
            obtain ⟨name', value'⟩ := next
            have hmore : encodeMoreMembers ((name', value') :: members) =
                comma :: encodeMembers ((name', value') :: members) := rfl
            rw [hmore, List.length_cons] at hfuel
            rw [hmore]
            exact parseMembers_more fuel
              (ihValue value _ hmembers.1 (follows_of_not (by decide) _) (by omega))
              (ihMembers name' value' members rest hmembers.2 (by omega))

/-- **Round trip**: the text that the writer makes of a value, with space behind it, is read as
    that value. -/
theorem parse_encode {j : Json} (hj : j.WellFormed) {space : List UInt8}
    (hspace : ∀ b ∈ space, isSpace b = true) : parse (encode j ++ space) = some j := by
  have hrest : Follows space := by
    intro b hb
    have hs := hspace b (List.mem_of_mem_head? hb)
    simp only [isSpace, Bool.or_eq_true, decide_eq_true_eq] at hs
    rcases hs with ((rfl | rfl) | rfl) | rfl <;> decide
  have hvalue := (parse_encoded ((encode j ++ space).length + 1)).1 j space hj hrest
    (by rw [List.length_append]; omega)
  have hskip : skipSpace space = [] := List.dropWhile_eq_nil_iff.2 hspace
  rw [parse, hvalue]
  simp only [Option.bind_eq_bind, Option.bind_some, hskip, if_true]

example : parse (ascii " [1, -2.5e3 ,\"a\\u0041\\n\", null]\n") =
    some (.arr [.num (ascii "1"), .num (ascii "-2.5e3"), .str (ascii "aA\n"), .null]) := by
  rfl

/-! ## Texts that are not JSON -/

/-- No text that starts with the one of `j` is read as a value, given the fuel to read it. -/
def Unreadable (j : Json) : Prop :=
  ∀ fuel rest, (encode j).length < fuel → parseValue fuel (encode j ++ rest) = none

/-- What printers of floating-point numbers write for the values that are no numbers. -/
def notFinite : List (List UInt8) := [ascii "nan", ascii "-nan", ascii "inf", ascii "-inf"]

theorem unreadable_notFinite {text : List UInt8} (h : text ∈ notFinite) :
    Unreadable (.num text) := by
  intro fuel rest hfuel
  obtain ⟨fuel, rfl⟩ : ∃ n, fuel = n + 1 := ⟨fuel - 1, by omega⟩
  simp only [notFinite, List.mem_cons, List.not_mem_nil, or_false] at h
  rcases h with rfl | rfl | rfl | rfl <;> rfl

/-- The members up to one that cannot be read. -/
theorem parseMembers_unreadable {name : List UInt8} {value : Json} (hvalue : Unreadable value)
    (ms ns : List (List UInt8 × Json)) (hms : WellFormedMembers ms) (fuel : Nat)
    (rest : List UInt8) (hfuel : (encodeMembers (ms ++ (name, value) :: ns)).length + 1 < fuel) :
    parseMembers fuel (encodeMembers (ms ++ (name, value) :: ns) ++ rest) = none := by
  induction ms generalizing fuel with
  | nil =>
      obtain ⟨fuel, rfl⟩ : ∃ n, fuel = n + 1 := ⟨fuel - 1, by omega⟩
      rw [List.nil_append, encodeMembers, List.length_append, List.length_cons,
        List.length_append] at hfuel
      rw [List.nil_append, encodeMembers, List.append_assoc, List.cons_append, List.append_assoc,
        parseMembers_name, hvalue fuel _ (by omega)]
      rfl
  | cons m ms ih =>
      obtain ⟨fuel, rfl⟩ : ∃ n, fuel = n + 1 := ⟨fuel - 1, by omega⟩
      obtain ⟨name', value'⟩ := m
      have hmore : encodeMoreMembers (ms ++ (name, value) :: ns) =
          comma :: encodeMembers (ms ++ (name, value) :: ns) := by
        cases ms with
        | nil => rfl
        | cons m ms => rfl
      rw [List.cons_append, encodeMembers, hmore, List.length_append, List.length_cons,
        List.length_append, List.length_cons] at hfuel
      -- the member is read, the comma too, and the rest cannot be
      have hread := (parse_encoded fuel).1 value'
        (comma :: (encodeMembers (ms ++ (name, value) :: ns) ++ rest)) hms.1
        (follows_of_not (by decide) _) (by omega)
      have hclose := expect_of_ne (b := comma) (c := closeBrace) (by decide) (by decide)
        (encodeMembers (ms ++ (name, value) :: ns) ++ rest)
      have hcomma := expect_self (c := comma) (by decide)
        (encodeMembers (ms ++ (name, value) :: ns) ++ rest)
      rw [List.cons_append, encodeMembers, hmore, List.append_assoc, List.cons_append,
        List.append_assoc, List.cons_append, parseMembers_name, hread]
      simp only [Option.bind_some, hclose, hcomma, ih hms.2 fuel (by omega), Option.bind_none]

theorem unreadable_obj {name : List UInt8} {value : Json} (hvalue : Unreadable value)
    (ms ns : List (List UInt8 × Json)) (hms : WellFormedMembers ms) :
    Unreadable (.obj (ms ++ (name, value) :: ns)) := by
  intro fuel rest hfuel
  obtain ⟨fuel, rfl⟩ : ∃ n, fuel = n + 1 := ⟨fuel - 1, by omega⟩
  rw [encode, List.length_cons, List.length_append, List.length_singleton] at hfuel
  have hhead : ∃ s, encodeMembers (ms ++ (name, value) :: ns) = quote :: s := by
    cases ms with
    | nil => exact ⟨_, rfl⟩
    | cons m ms => exact ⟨_, rfl⟩
  obtain ⟨s, hs⟩ := hhead
  have hclose : expect closeBrace
      (encodeMembers (ms ++ (name, value) :: ns) ++ ([closeBrace] ++ rest)) = none := by
    rw [hs]
    exact expect_of_ne (by decide) (by decide) _
  have hmembers : parseMembers fuel (encodeMembers (ms ++ (name, value) :: ns) ++
      ([closeBrace] ++ rest)) = none :=
    parseMembers_unreadable hvalue ms ns hms fuel _ (by omega)
  rw [encode, List.cons_append, List.append_assoc, parseValue, skipSpace_cons (by decide)]
  simp only [hclose, hmembers]
  rfl

theorem parse_unreadable {j : Json} (hj : Unreadable j) (rest : List UInt8) :
    parse (encode j ++ rest) = none := by
  rw [parse, hj _ rest (by rw [List.length_append]; omega)]
  rfl

/-! ## No control characters -/

/-- No byte below `0x20`. -/
def Printable (s : List UInt8) : Prop := ∀ b ∈ s, 32 ≤ b

theorem printable_of_all {s : List UInt8} (h : s.all (fun b => decide (32 ≤ b)) = true) :
    Printable s := by
  intro b hb
  exact of_decide_eq_true (List.all_eq_true.1 h b hb)

theorem Printable.append {s t : List UInt8} (hs : Printable s) (ht : Printable t) :
    Printable (s ++ t) := by
  intro b hb
  rcases List.mem_append.1 hb with h | h
  · exact hs b h
  · exact ht b h

theorem Printable.cons {b : UInt8} (hb : 32 ≤ b) {s : List UInt8} (hs : Printable s) :
    Printable (b :: s) := by
  intro c hc
  rcases List.mem_cons.1 hc with rfl | h
  · exact hb
  · exact hs c h

theorem Printable.nil : Printable [] := by
  simp [Printable]

theorem printable_hexDigit : ∀ d < 16, 32 ≤ hexDigit d := by
  decide

theorem printable_escapeByte (b : UInt8) : Printable (escapeByte b) := by
  rcases escapeByte_cases b with ⟨c, hc, hpair, -⟩ | ⟨hlow, hcode⟩ | ⟨-, -, hhigh, hself⟩
  · rw [hpair]
    exact .cons (by decide) (.cons hc .nil)
  · have hlt : b.toNat < 32 := hlow
    have h1 := printable_hexDigit (b.toNat / 16) (by omega)
    have h2 := printable_hexDigit (b.toNat % 16) (by omega)
    rw [hcode]
    exact .cons (by decide) (.cons (by decide) (.cons (by decide) (.cons (by decide)
      (.cons h1 (.cons h2 .nil)))))
  · rw [hself]
    exact .cons hhigh .nil

theorem printable_encodeString (s : List UInt8) : Printable (encodeString s) := by
  refine .cons (by decide) (.append ?_ (.cons (by decide) .nil))
  intro b hb
  obtain ⟨c, -, hc⟩ := List.mem_flatMap.1 hb
  exact printable_escapeByte c b hc

theorem printable_isNumber {text : List UInt8} (h : isNumber text = true) : Printable text := by
  intro b hb
  have hnum := isNumberByte_of_isNumber h b hb
  by_contra hlt
  have hlt' : b.toNat < 32 := UInt8.not_le.1 hlt
  have hne : ∀ c : UInt8, 32 ≤ c.toNat → b ≠ c := by
    rintro c hc rfl
    omega
  have hdigit : isDigit b = false := by
    rw [isDigit, Bool.and_eq_false_iff]
    left
    simp only [decide_eq_false_iff_not, UInt8.le_iff_toNat_le, UInt8.reduceToNat]
    omega
  simp [isNumberByte, hdigit, hne 43 (by decide), hne 45 (by decide), hne 46 (by decide),
    hne 69 (by decide), hne 101 (by decide)] at hnum

/-- **The writer puts everything on one line.** -/
theorem printable_encode (j : Json) (hj : j.WellFormed) : Printable (encode j) := by
  refine @Json.rec (fun j => j.WellFormed → Printable (encode j))
    (fun items => WellFormedItems items →
      Printable (encodeItems items) ∧ Printable (encodeMoreItems items))
    (fun members => WellFormedMembers members →
      Printable (encodeMembers members) ∧ Printable (encodeMoreMembers members))
    (fun member => member.2.WellFormed → Printable (encode member.2))
    ?_ ?_ ?_ ?_ ?_ ?_ ?_ ?_ ?_ ?_ ?_ j hj
  · exact fun _ => printable_of_all rfl
  · intro b _
    cases b with
    | true => exact printable_of_all rfl
    | false => exact printable_of_all rfl
  · exact fun text h => printable_isNumber h
  · exact fun s _ => printable_encodeString s
  · exact fun items ih h => .cons (by decide) ((ih h).1.append (.cons (by decide) .nil))
  · exact fun members ih h => .cons (by decide) ((ih h).1.append (.cons (by decide) .nil))
  · exact fun _ => ⟨.nil, .nil⟩
  · intro item items hitem hitems h
    have hboth := (hitem h.1).append (hitems h.2).2
    exact ⟨hboth, .cons (by decide) hboth⟩
  · exact fun _ => ⟨.nil, .nil⟩
  · intro member members hmember hmembers h
    have hboth := (printable_encodeString member.1).append
      (.cons (b := colon) (by decide) ((hmember h.1).append (hmembers h.2).2))
    exact ⟨hboth, .cons (by decide) hboth⟩
  · exact fun name value ih h => ih h

end Json
