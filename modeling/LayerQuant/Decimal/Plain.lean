import LayerQuant.Decimal.Fixed
import LayerQuant.Decimal.Shortest

/-!
# Plain numbers in messages

Messages write a number with the fewest digits that read back, without an exponent and without a
point when there is no fraction. Of two equally near numerals the larger one is written.
-/

namespace LayerQuant

namespace Decimal

/-- Writes a decimal by its digits, filled up with zeros. -/
def toPlain (d : Decimal) : String :=
  if 0 ≤ d.exponent then toString (d.coefficient * Nat.pow 10 d.exponent.toNat)
  else writeFixed (-d.exponent).toNat d.coefficient

end Decimal

namespace Binary

/-- Writes a number for a message. -/
def toPlain {f : Format} : Binary f → String
  | nan => "NaN"
  | number negative magnitude =>
    signText negative ++
      if magnitude.isInfinite then "inf" else (magnitude.shortest .up).toPlain

end Binary

end LayerQuant
