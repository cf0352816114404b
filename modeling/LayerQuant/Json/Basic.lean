import LayerQuant.Decimal.Basic
import LayerQuant.Decimal.Shortest

/-!
# JSON values

The values of a JSON document. Numbers are kept as they are written and get their meaning from the
place they stand in. A string may hold half of a surrogate pair, which is no text; it stands in a
document as long as nothing asks for its text.
-/

namespace LayerQuant

/-- A number of a document. -/
inductive JsonNumber where
  /-- A whole number without a sign, below `2 ^ 64`. -/
  | natural (value : Nat)
  /-- The magnitude of a negative whole number down to `-2 ^ 63`. -/
  | negative (magnitude : Nat)
  /-- Any other number. -/
  | real (negative : Bool) (value : Decimal)
deriving DecidableEq, Repr

/-- A value of a document. The text of a string is `none` if it is not a text. -/
inductive Json where
  | null
  | bool (value : Bool)
  | number (value : JsonNumber)
  | string (text : Option String)
  | array (items : List Json)
  | object (members : List (Option String × Json))
deriving Inhabited

namespace JsonNumber

/-- Divides by `10 ^ 308` until the exponent is one that a power of ten of double precision has,
then applies that power. Without a value, the number is too large. -/
def scale : Nat → Double → Int → Option Double
  | steps, x, exponent =>
    if exponent.natAbs ≤ 308 then
      let power := Binary.ofDecimal .double false 1 exponent.natAbs
      if 0 ≤ exponent then
        let product := x * power
        if product.isFinite then some product else none
      else some (x / power)
    else if x.sameNumber .zero then some x
    else if 0 ≤ exponent then none
    else
      match steps with
      | 0 => some .zero
      | steps + 1 => scale steps (x / Binary.ofDecimal .double false 1 308) (exponent + 308)

/-- The number at double precision. A decimal is its coefficient, rounded, times or divided by a
power of ten, rounded again. -/
def toDouble? : JsonNumber → Option Double
  | natural value => some (.ofNat .double value)
  | negative magnitude => some (-(.ofNat .double magnitude))
  | real minus value =>
    (scale 3 (.ofNat .double value.coefficient) value.exponent).map fun x =>
      if minus then -x else x

/-- The number at single precision. Whole numbers are rounded once, decimals by way of double
precision. -/
def toSingle? : JsonNumber → Option Single
  | natural value => some (.ofNat .single value)
  | negative magnitude => some (-(.ofNat .single magnitude))
  | number => number.toDouble?.map (Binary.convert .single)

end JsonNumber

namespace Json

/-- A number of single precision as a value: a finite one by the fewest digits that read back, of
two equally near numerals by the even one, and any other as null. -/
def ofSingle : Single → Json
  | .nan => null
  | .number negative magnitude =>
    if magnitude.isInfinite then null
    else number (.real negative (magnitude.shortest .even))

/-- A whole number. -/
def ofNat (n : Nat) : Json := number (.natural n)

/-- A text. -/
def ofText (text : String) : Json := string (some text)

/-- An object with its members in order. -/
def ofMembers (members : List (String × Json)) : Json :=
  object (members.map fun (key, value) => (some key, value))

end Json

end LayerQuant
