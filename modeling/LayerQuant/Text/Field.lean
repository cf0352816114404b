import LayerQuant.Decimal.Basic

/-!
# Fields of a line

Cutting a line at single blanks, and reading an unsigned integer of 64 bits.
-/

namespace LayerQuant.Text

/-- Cuts text at blanks into at most `count` fields. The last field keeps its blanks, and blanks
next to each other have an empty field between them. -/
def fields : Nat → List Char → List (List Char)
  | 0, _ => []
  | 1, text => [text]
  | count + 2, text =>
    match text.dropWhile (· != ' ') with
    | [] => [text]
    | _ :: rest => text.takeWhile (· != ' ') :: fields (count + 1) rest

/-- Reads a natural number below `2 ^ 64`: an optional plus sign and at least one digit. -/
def natural? (text : List Char) : Option Nat :=
  let digits := match text with
    | '+' :: rest => rest
    | text => text
  if !digits.isEmpty && digits.all Char.isDigit && Decimal.ofDigits digits < Nat.pow 2 64 then
    some (Decimal.ofDigits digits)
  else none

end LayerQuant.Text
