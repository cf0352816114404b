import LayerQuant.Binary.Basic

/-!
# Correctly rounded arithmetic

Each operation finds the exact result as a fraction of units and rounds it once, to the nearest
magnitude and to the even one of two that are equally near. `Magnitude.round` is the only rounding
of the library.
-/

namespace LayerQuant

/-- The integer nearest to `num / den`, a half going to the even neighbour. -/
def roundHalfEven (num den : Nat) : Nat :=
  let quotient := num / den
  let rest := 2 * (num % den)
  if den < rest ∨ rest = den ∧ quotient % 2 = 1 then quotient + 1 else quotient

/-- The integer nearest to `num / den`, a half going up. -/
def roundHalfUp (num den : Nat) : Nat := (2 * num + den) / (2 * den)

/-- The largest integer whose square is at most `n`, found bit by bit from bit `bits` down. -/
def squareRootFrom (n : Nat) : Nat → Nat → Nat
  | 0, root => root
  | bits + 1, root =>
    let next := root + Nat.pow 2 bits
    squareRootFrom n bits (if next * next ≤ n then next else root)

/-- The largest integer whose square is at most `n`. -/
def squareRoot (n : Nat) : Nat := squareRootFrom n (n.log2 / 2 + 1) 0

namespace Magnitude

/-- The magnitude nearest to `num / den` units, the even one of two that are equally near.

The significand keeps `fractionBits + 1` bits, so `shift` low bits are rounded away; a carry out of
the significand lands on the next binade by itself, because the numbers of the magnitudes run on. -/
def round (f : Format) (num den : Nat) : Magnitude f :=
  let shift := (num / den).log2 - f.fractionBits
  let significand := roundHalfEven num (den * Nat.pow 2 shift)
  ⟨min (shift * f.binade + significand) f.infinity, Nat.min_le_right _ _⟩

end Magnitude

namespace Binary

variable {f : Format}

/-- The number nearest to `± num / den` units. -/
def ofUnits (f : Format) (negative : Bool) (num den : Nat) : Binary f :=
  number negative (.round f num den)

/-- The number nearest to `± num / den`. -/
def ofRatio (f : Format) (negative : Bool) (num den : Nat) : Binary f :=
  ofUnits f negative (num * f.one) den

/-- The number nearest to a natural number. -/
def ofNat (f : Format) (n : Nat) : Binary f := ofRatio f false n 1

/-- The number nearest to the decimal `± coefficient * 10 ^ exponent`.

Exponents far outside the format are answered without computing the power of ten. -/
def ofDecimal (f : Format) (negative : Bool) (coefficient : Nat) (exponent : Int) : Binary f :=
  if coefficient = 0 then number negative .zero
  else if (Nat.pow 2 f.exponentBits : Nat) ≤ exponent then number negative .infinite
  else if exponent < -(coefficient.log2 + f.unitBits + 2 : Nat) then number negative .zero
  else if 0 ≤ exponent then ofRatio f negative (coefficient * Nat.pow 10 exponent.toNat) 1
  else ofRatio f negative coefficient (Nat.pow 10 (-exponent).toNat)

/-- The nearest number of another format. -/
def convert (g : Format) : Binary f → Binary g
  | nan => nan
  | number negative magnitude =>
    if magnitude.isInfinite then number negative .infinite
    else ofUnits g negative (magnitude.units * g.one) f.one

/-- The sum. An exact zero is positive unless both sides are negative. -/
def add : Binary f → Binary f → Binary f
  | number n a, number n' b =>
    if a.isInfinite then (if b.isInfinite && n != n' then nan else number n a)
    else if b.isInfinite then number n' b
    else
      let sum := signed n a.units + signed n' b.units
      if sum = 0 then number (n && n') .zero else ofUnits f (sum < 0) sum.natAbs 1
  | _, _ => nan

/-- The difference. -/
def sub (a b : Binary f) : Binary f := a.add (-b)

/-- The product. -/
def mul : Binary f → Binary f → Binary f
  | number n a, number n' b =>
    if a.isInfinite || b.isInfinite then
      if a.ordinal == 0 || b.ordinal == 0 then nan else number (n != n') .infinite
    else ofUnits f (n != n') (a.units * b.units) f.one
  | _, _ => nan

/-- The quotient. -/
def div : Binary f → Binary f → Binary f
  | number n a, number n' b =>
    if a.isInfinite then (if b.isInfinite then nan else number (n != n') .infinite)
    else if b.isInfinite then number (n != n') .zero
    else if b.ordinal == 0 then (if a.ordinal == 0 then nan else number (n != n') .infinite)
    else ofUnits f (n != n') (a.units * f.one) b.units
  | _, _ => nan

instance : Add (Binary f) := ⟨add⟩
instance : Sub (Binary f) := ⟨sub⟩
instance : Mul (Binary f) := ⟨mul⟩
instance : Div (Binary f) := ⟨div⟩

/-- The square root. A root that is not whole is rounded from the point halfway to the next one,
which lies on the same side of every number of the format. -/
def sqrt : Binary f → Binary f
  | nan => nan
  | number negative magnitude =>
    if magnitude.ordinal == 0 then number negative magnitude
    else if negative then nan
    else if magnitude.isInfinite then number false magnitude
    else
      let square := magnitude.units * f.one
      let root := squareRoot square
      if root * root = square then ofUnits f false root 1 else ofUnits f false (2 * root + 1) 2

/-- The least integer that is not below the number, with the number's sign. -/
def ceil : Binary f → Binary f
  | nan => nan
  | number negative magnitude =>
    if magnitude.isInfinite then number negative magnitude
    else
      let whole :=
        if negative then magnitude.units / f.one else (magnitude.units + (f.one - 1)) / f.one
      ofUnits f negative (whole * f.one) 1

/-- The integer nearest to the number within `low … high`, a half going away from zero. A datum that
is not a number gives zero. -/
def nearestInt (low high : Int) : Binary f → Int
  | nan => 0
  | number negative magnitude =>
    if magnitude.isInfinite then (if negative then low else high)
    else
      max low (min high (signed negative (roundHalfUp magnitude.units f.one)))

end Binary

end LayerQuant
