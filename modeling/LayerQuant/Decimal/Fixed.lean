import LayerQuant.Decimal.Basic

/-!
# Decimals with a fixed number of places

The exact value is rounded to the given number of places, a half going to the even neighbour, and
every place is written. Zero keeps its sign.
-/

namespace LayerQuant

/-- Right-aligns text to a width by blanks. -/
def alignRight (width : Nat) (text : String) : String :=
  String.ofList (List.replicate (width - text.length) ' ') ++ text

namespace Decimal

/-- Writes `n / 10 ^ places` with all its places. -/
def writeFixed (places n : Nat) : String :=
  let digits := Nat.toDigits 10 n
  let padded := List.replicate (places + 1 - digits.length) '0' ++ digits
  let whole := padded.take (padded.length - places)
  let fraction := padded.drop (padded.length - places)
  String.ofList (if places = 0 then whole else whole ++ '.' :: fraction)

end Decimal

namespace Binary

variable {f : Format}

/-- The sign of a number in text. -/
def signText (negative : Bool) : String := if negative then "-" else ""

/-- Writes a number with a fixed count of decimal places. -/
def toFixed (places : Nat) : Binary f → String
  | nan => "NaN"
  | number negative magnitude =>
    signText negative ++
      if magnitude.isInfinite then "inf"
      else
        Decimal.writeFixed places
          (roundHalfEven (magnitude.units * Nat.pow 10 places) f.one)

end Binary

end LayerQuant
