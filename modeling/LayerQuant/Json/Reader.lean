import LayerQuant.Json.Basic

/-!
# Reading JSON

Reads a document, blanks around it included. A number that does not fit 64 bits keeps as many
leading digits as do, and its other digits count only for its size.
-/

namespace LayerQuant

namespace Json

/-- Whether a character may stand between the parts of a document. -/
def isSpace (c : Char) : Bool := c == ' ' || c == '\n' || c == '\t' || c == '\r'

/-- What follows the blanks. -/
def skipSpace (text : List Char) : List Char := text.dropWhile isSpace

/-- Appends digits to a number as long as it stays below `2 ^ 64`, and counts them. -/
def keepDigits : Nat → List Char → Nat × Nat
  | value, [] => (value, 0)
  | value, digit :: rest =>
    let next := 10 * value + Decimal.digitValue digit
    if next < Nat.pow 2 64 then
      let (result, count) := keepDigits next rest
      (result, count + 1)
    else (value, 0)

/-- Reads the fraction of a number: its digits, none without a point, and what follows. -/
def readFraction : List Char → Option (List Char × List Char)
  | '.' :: rest =>
    let digits := rest.takeWhile Char.isDigit
    if digits.isEmpty then none else some (digits, rest.dropWhile Char.isDigit)
  | rest => some ([], rest)

/-- Reads the exponent of a number, `none` without one, and what follows. -/
def readExponent (text : List Char) : Option (Option Int × List Char) :=
  match text with
  | mark :: rest =>
    if mark == 'e' || mark == 'E' then
      let (negative, rest) := Decimal.splitSign rest
      let digits := rest.takeWhile Char.isDigit
      if digits.isEmpty then none
      else
        some (some (Binary.signed negative (Decimal.ofDigits digits)), rest.dropWhile Char.isDigit)
    else some (none, text)
  | [] => some (none, [])

/-- The number with the given sign, whole digits, fraction digits and exponent. A negative zero is
not a whole number. -/
def numberOf (negative : Bool) (whole fraction : List Char) (exponent : Option Int) : JsonNumber :=
  let (start, kept) := keepDigits 0 whole
  if fraction.isEmpty && exponent.isNone && kept == whole.length then
    if !negative then .natural start
    else if start ≠ 0 ∧ start ≤ Nat.pow 2 63 then .negative start
    else .real true ⟨start, 0⟩
  else
    let (value, places) := keepDigits start fraction
    .real negative ⟨value, (whole.length - kept : Nat) - (places : Int) + exponent.getD 0⟩

/-- Reads a number. A zero is not followed by another whole digit. -/
def readNumber (text : List Char) : Option (JsonNumber × List Char) := do
  let (negative, text) := match text with
    | '-' :: rest => (true, rest)
    | text => (false, text)
  let whole := text.takeWhile Char.isDigit
  if whole.isEmpty || (whole.head? == some '0' && whole.length != 1) then none
  else
    let (fraction, rest) ← readFraction (text.dropWhile Char.isDigit)
    let (exponent, rest) ← readExponent rest
    some (numberOf negative whole fraction exponent, rest)

/-- The value of a hexadecimal digit. -/
def hexValue? (c : Char) : Option Nat :=
  if '0' ≤ c ∧ c ≤ '9' then some (c.toNat - '0'.toNat)
  else if 'a' ≤ c ∧ c ≤ 'f' then some (c.toNat - 'a'.toNat + 10)
  else if 'A' ≤ c ∧ c ≤ 'F' then some (c.toNat - 'A'.toNat + 10)
  else none

/-- The value of four hexadecimal digits. -/
def hexFour? (a b c d : Char) : Option Nat := do
  let a ← hexValue? a
  let b ← hexValue? b
  let c ← hexValue? c
  let d ← hexValue? d
  some (a * 4096 + b * 256 + c * 16 + d)

/-- The character that a letter after a backslash stands for. -/
def unescape? : Char → Option Char
  | '"' => some '"'
  | '\\' => some '\\'
  | '/' => some '/'
  | 'b' => some '\x08'
  | 'f' => some '\x0c'
  | 'n' => some '\n'
  | 'r' => some '\r'
  | 't' => some '\t'
  | _ => none

/-- Reads a string after its opening quote: its code points, which may be halves of surrogate pairs,
and what follows. -/
def readCodes : List Char → Option (List Nat × List Char)
  | '"' :: rest => some ([], rest)
  | '\\' :: 'u' :: a :: b :: c :: d :: rest => do
    let code ← hexFour? a b c d
    let (codes, rest) ← readCodes rest
    some (code :: codes, rest)
  | '\\' :: letter :: rest => do
    let c ← unescape? letter
    let (codes, rest) ← readCodes rest
    some (c.toNat :: codes, rest)
  | c :: rest =>
    if c.toNat < 0x20 || c == '\\' then none
    else do
      let (codes, rest) ← readCodes rest
      some (c.toNat :: codes, rest)
  | [] => none

/-- The text of code points, surrogate pairs joined, if none stands alone. -/
def joinCodes : List Nat → Option (List Char)
  | [] => some []
  | [code] => if 0xD800 ≤ code ∧ code < 0xE000 then none else some [Char.ofNat code]
  | code :: next :: rest =>
    if 0xD800 ≤ code ∧ code < 0xDC00 ∧ 0xDC00 ≤ next ∧ next < 0xE000 then
      (joinCodes rest).map
        (Char.ofNat (0x10000 + (code - 0xD800) * 0x400 + (next - 0xDC00)) :: ·)
    else if 0xD800 ≤ code ∧ code < 0xE000 then none
    else (joinCodes (next :: rest)).map (Char.ofNat code :: ·)

/-- Reads a string after its opening quote. -/
def readString (text : List Char) : Option (Option String × List Char) :=
  (readCodes text).map fun (codes, rest) => ((joinCodes codes).map String.ofList, rest)

/-- What follows a word at the start of a text. -/
def afterWord? (word : List Char) (text : List Char) : Option (List Char) :=
  if word.isPrefixOf text then some (text.drop word.length) else none

mutual

/-- Reads a value. The first argument bounds the number of nested parts. -/
def readValue : Nat → List Char → Option (Json × List Char)
  | 0, _ => none
  | depth + 1, text =>
    match skipSpace text with
    | '"' :: rest => (readString rest).map fun (text, rest) => (string text, rest)
    | '[' :: rest =>
      match skipSpace rest with
      | ']' :: rest => some (array [], rest)
      | rest => (readItems depth rest).map fun (items, rest) => (array items, rest)
    | '{' :: rest =>
      match skipSpace rest with
      | '}' :: rest => some (object [], rest)
      | rest => (readMembers depth rest).map fun (members, rest) => (object members, rest)
    | 'n' :: rest => (afterWord? ['u', 'l', 'l'] rest).map (null, ·)
    | 't' :: rest => (afterWord? ['r', 'u', 'e'] rest).map (bool true, ·)
    | 'f' :: rest => (afterWord? ['a', 'l', 's', 'e'] rest).map (bool false, ·)
    | rest => (readNumber rest).map fun (value, rest) => (number value, rest)

/-- Reads the items of an array up to its closing bracket. -/
def readItems : Nat → List Char → Option (List Json × List Char)
  | 0, _ => none
  | depth + 1, text => do
    let (item, rest) ← readValue depth text
    match skipSpace rest with
    | ',' :: rest =>
      let (items, rest) ← readItems depth rest
      some (item :: items, rest)
    | ']' :: rest => some ([item], rest)
    | _ => none

/-- Reads the members of an object up to its closing bracket. -/
def readMembers : Nat → List Char → Option (List (Option String × Json) × List Char)
  | 0, _ => none
  | depth + 1, text => do
    let '"' :: rest := skipSpace text | none
    let (key, rest) ← readString rest
    let ':' :: rest := skipSpace rest | none
    let (value, rest) ← readValue depth rest
    match skipSpace rest with
    | ',' :: rest =>
      let (members, rest) ← readMembers depth rest
      some ((key, value) :: members, rest)
    | '}' :: rest => some ([(key, value)], rest)
    | _ => none

end

/-- Reads a document. Every nested part takes at least one character, so the length of the text
bounds their number. -/
def ofText? (text : String) : Option Json :=
  match readValue (2 * text.length + 2) text.toList with
  | some (value, rest) => if (skipSpace rest).isEmpty then some value else none
  | none => none

end Json

end LayerQuant
