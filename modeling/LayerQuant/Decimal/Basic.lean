import LayerQuant.Binary.Arithmetic

/-!
# Decimal numerals

Reading a decimal numeral, and reading a floating-point number from its text. A numeral has digits
on at least one side of an optional point, and an optional exponent; the words `inf`, `infinity` and
`nan` stand for themselves in any case.
-/

namespace LayerQuant

/-- The number `coefficient * 10 ^ exponent`. -/
structure Decimal where
  coefficient : Nat
  exponent : Int
deriving DecidableEq, Repr

namespace Decimal

/-- The value of a decimal digit. -/
def digitValue (c : Char) : Nat := c.toNat - '0'.toNat

/-- The natural number written by a row of decimal digits. -/
def ofDigits (digits : List Char) : Nat :=
  digits.foldl (fun n c => 10 * n + digitValue c) 0

/-- An optional sign, and whether it is a minus. -/
def splitSign : List Char → Bool × List Char
  | '-' :: rest => (true, rest)
  | '+' :: rest => (false, rest)
  | rest => (false, rest)

/-- The exponent part of a numeral: nothing, or a letter `e` with a signed row of digits. -/
def exponent? : List Char → Option Int
  | [] => some 0
  | mark :: rest =>
    let (negative, digits) := splitSign rest
    if (mark == 'e' || mark == 'E') && !digits.isEmpty && digits.all Char.isDigit then
      some (Binary.signed negative (ofDigits digits))
    else none

/-- The digits after the point, and what follows them. Without a point there are none. -/
def splitFraction : List Char → List Char × List Char
  | '.' :: rest => (rest.takeWhile Char.isDigit, rest.dropWhile Char.isDigit)
  | rest => ([], rest)

/-- Reads a numeral without a sign. -/
def ofChars? (text : List Char) : Option Decimal :=
  let whole := text.takeWhile Char.isDigit
  let (fraction, rest) := splitFraction (text.dropWhile Char.isDigit)
  if whole.isEmpty && fraction.isEmpty then none
  else
    (exponent? rest).map fun exponent =>
      ⟨ofDigits (whole ++ fraction), exponent - fraction.length⟩

/-- The number of decimal digits of a natural number. -/
def digitCount (n : Nat) : Nat := if n < 10 then 1 else digitCount (n / 10) + 1

end Decimal

namespace Binary

/-- Reads a floating-point number: an optional sign, then a numeral or one of the words for
infinity and not-a-number. The number is the one nearest to what the numeral says. -/
def ofChars? (f : Format) (text : List Char) : Option (Binary f) :=
  let (negative, body) := Decimal.splitSign text
  let word := String.ofList (body.map Char.toLower)
  if word = "nan" then some nan
  else if word = "inf" ∨ word = "infinity" then some (number negative .infinite)
  else (Decimal.ofChars? body).map fun d => ofDecimal f negative d.coefficient d.exponent

/-- Reads a floating-point number from text. -/
def ofText? (f : Format) (text : String) : Option (Binary f) := ofChars? f text.toList

end Binary

end LayerQuant
