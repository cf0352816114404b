import LayerQuant.Decimal.Basic

/-!
# The fewest digits that read back

A finite magnitude is written with the fewest decimal digits from which it can be read again, and
among the numerals of that length with the one nearest to it. On a grid of decimals the two
neighbours of the value are the only candidates, because if any grid point reads back then so does
one of them.
-/

namespace LayerQuant

/-- Which of two equally near numerals of the same length is written. -/
inductive DigitTie where
  /-- The larger one. -/
  | up
  /-- The one with an even last digit. -/
  | even
deriving DecidableEq, Repr

namespace Decimal

/-- The exponent `k` with `10 ^ k ≤ num / den < 10 ^ (k + 1)`, for a positive fraction. -/
def leadingExponent (num den : Nat) : Int :=
  if den ≤ num then (digitCount (num / den) - 1 : Nat) else -(digitCount ((den - 1) / num) : Int)

/-- The decimal without the zeros that end its coefficient. -/
def stripZeros (d : Decimal) : Nat → Decimal
  | 0 => d
  | count + 1 =>
    if d.coefficient ≠ 0 ∧ d.coefficient % 10 = 0 then
      stripZeros ⟨d.coefficient / 10, d.exponent + 1⟩ count
    else d

end Decimal

namespace Magnitude

variable {f : Format}

/-- Whether the decimal `coefficient * 10 ^ exponent` is read as this magnitude. -/
def isReadFrom (m : Magnitude f) (d : Decimal) : Bool :=
  Binary.ofDecimal f false d.coefficient d.exponent == .number false m

/-- The neighbour of the magnitude on the grid of multiples of `10 ^ exponent` that reads back, if
one does. -/
def onGrid? (tie : DigitTie) (m : Magnitude f) (exponent : Int) : Option Decimal :=
  let num := m.units * Nat.pow 10 (-exponent).toNat
  let den := f.one * Nat.pow 10 exponent.toNat
  let below : Decimal := ⟨num / den, exponent⟩
  let above : Decimal := ⟨num / den + 1, exponent⟩
  let rest := 2 * (num % den)
  let preferBelow :=
    rest < den || rest == den && tie == .even && below.coefficient % 2 == 0
  match m.isReadFrom below, m.isReadFrom above with
  | true, true => some (if preferBelow then below else above)
  | true, false => some below
  | false, true => some above
  | false, false => none

/-- The first grid with a numeral that reads back, from `exponent` downwards over at most `count`
finer grids. -/
def firstGrid (tie : DigitTie) (m : Magnitude f) : Nat → Int → Decimal
  | 0, exponent => ⟨m.units * Nat.pow 10 (-exponent).toNat / f.one, exponent⟩
  | count + 1, exponent =>
    match m.onGrid? tie exponent with
    | some d => d
    | none => firstGrid tie m count (exponent - 1)

/-- The shortest decimal that is read as the given finite magnitude. Its coefficient does not end in
zero unless it is zero. -/
def shortest (tie : DigitTie) (m : Magnitude f) : Decimal :=
  if m.units = 0 then ⟨0, 0⟩
  else
    let digits := f.fractionBits + 2
    (firstGrid tie m digits (Decimal.leadingExponent m.units f.one)).stripZeros digits

end Magnitude

end LayerQuant
