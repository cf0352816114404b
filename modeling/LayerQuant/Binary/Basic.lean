/-!
# Binary floating-point numbers

A number of a binary format is a sign and a magnitude, or not a number at all. The magnitudes of a
format are numbered by size: zero is number 0, the subnormal and normal values follow, and infinity
is the last. This number is also the bit pattern without its sign bit.

Every finite magnitude is a whole number of *units*, the unit being the smallest positive value of
the format. Statements about values are therefore statements about natural numbers.
-/

namespace LayerQuant

/-- A binary interchange format, given by the widths of its fraction and exponent fields. -/
structure Format where
  fractionBits : Nat
  exponentBits : Nat
deriving DecidableEq, Repr

namespace Format

/-- The 32-bit format. -/
def single : Format := ⟨23, 8⟩

/-- The 64-bit format. -/
def double : Format := ⟨52, 11⟩

/-- The number of magnitudes in a binade, that is, from one power of two up to the next. -/
def binade (f : Format) : Nat := Nat.pow 2 f.fractionBits

/-- One unit is `2 ^ (-unitBits)`. -/
def unitBits (f : Format) : Nat := Nat.pow 2 (f.exponentBits - 1) + f.fractionBits - 2

/-- The number one in units. -/
def one (f : Format) : Nat := Nat.pow 2 f.unitBits

/-- The number of the infinite magnitude. -/
def infinity (f : Format) : Nat := (Nat.pow 2 f.exponentBits - 1) * f.binade

/-- The value of the sign bit in a bit pattern. -/
def signBit (f : Format) : Nat := Nat.pow 2 (f.exponentBits + f.fractionBits)

end Format

/-- A magnitude of the format `f`, given by its number in order of size. -/
structure Magnitude (f : Format) where
  ordinal : Nat
  le_infinity : ordinal ≤ f.infinity
deriving DecidableEq

namespace Magnitude

variable {f : Format}

/-- The magnitude zero. -/
def zero : Magnitude f := ⟨0, Nat.zero_le _⟩

/-- The infinite magnitude. -/
def infinite : Magnitude f := ⟨f.infinity, Nat.le_refl _⟩

/-- Whether the magnitude is infinite. -/
def isInfinite (m : Magnitude f) : Bool := m.ordinal == f.infinity

/-- The magnitude in units of its format: the number itself in the first binade's worth of
magnitudes, and from there on a significand of `fractionBits + 1` bits whose last place doubles from
binade to binade. -/
def units (m : Magnitude f) : Nat :=
  if m.ordinal < f.binade then m.ordinal
  else (f.binade + m.ordinal % f.binade) * Nat.pow 2 (m.ordinal / f.binade - 1)

end Magnitude

/-- A floating-point datum of the format `f`. All quiet and signalling patterns are one `nan`. -/
inductive Binary (f : Format) where
  | nan
  | number (negative : Bool) (magnitude : Magnitude f)
deriving DecidableEq

/-- A 32-bit floating-point number. -/
abbrev Single := Binary Format.single

/-- A 64-bit floating-point number. -/
abbrev Double := Binary Format.double

namespace Binary

variable {f : Format}

instance : Inhabited (Binary f) := ⟨nan⟩

/-- Zero with a positive sign. -/
def zero : Binary f := number false .zero

/-- Positive infinity. -/
def infinity : Binary f := number false .infinite

/-- Negative infinity. -/
def negativeInfinity : Binary f := number true .infinite

/-- Whether the datum is not a number. -/
def isNaN : Binary f → Bool
  | nan => true
  | number _ _ => false

/-- Whether the datum is a number other than an infinity. -/
def isFinite : Binary f → Bool
  | nan => false
  | number _ magnitude => !magnitude.isInfinite

/-- A whole number of units with a sign. -/
def signed (negative : Bool) (n : Nat) : Int := if negative then -(n : Int) else n

/-- The bit pattern of a number, `none` for a datum that is not a number. -/
def toBits? : Binary f → Option Nat
  | nan => none
  | number negative magnitude =>
    some (magnitude.ordinal + if negative then f.signBit else 0)

/-- The datum with the given bit pattern. Patterns above infinity are not numbers. -/
def ofBits (f : Format) (bits : Nat) : Binary f :=
  let ordinal := bits % f.signBit
  if h : ordinal ≤ f.infinity then
    number (bits / f.signBit % 2 == 1) ⟨ordinal, h⟩
  else nan

/-- The same magnitude with a positive sign. -/
def abs : Binary f → Binary f
  | nan => nan
  | number _ magnitude => number false magnitude

/-- The same magnitude with the other sign. -/
def neg : Binary f → Binary f
  | nan => nan
  | number negative magnitude => number (!negative) magnitude

instance : Neg (Binary f) := ⟨neg⟩

/-- Position of a number in the numeric order. The two zeros share one position. -/
def position (negative : Bool) (magnitude : Magnitude f) : Int := signed negative magnitude.ordinal

/-- Numeric comparison. It is false as soon as one side is not a number. -/
def less : Binary f → Binary f → Bool
  | number n m, number n' m' => position n m < position n' m'
  | _, _ => false

/-- Numeric comparison with equality. It is false as soon as one side is not a number. -/
def lessEq : Binary f → Binary f → Bool
  | number n m, number n' m' => position n m ≤ position n' m'
  | _, _ => false

/-- Numeric equality: the two zeros are equal, and nothing equals a datum that is not a number. -/
def sameNumber : Binary f → Binary f → Bool
  | number n m, number n' m' => position n m == position n' m'
  | _, _ => false

instance : LT (Binary f) := ⟨fun a b => a.less b = true⟩
instance : LE (Binary f) := ⟨fun a b => a.lessEq b = true⟩
instance (a b : Binary f) : Decidable (a < b) := inferInstanceAs (Decidable (a.less b = true))
instance (a b : Binary f) : Decidable (a ≤ b) := inferInstanceAs (Decidable (a.lessEq b = true))

/-- The larger number. A datum that is not a number yields to the other side, and of two equal
numbers the right one is taken. -/
def maximum : Binary f → Binary f → Binary f
  | nan, b => b
  | a, nan => a
  | a, b => if b < a then a else b

/-- The smaller number. A datum that is not a number yields to the other side, and of two equal
numbers the right one is taken. -/
def minimum : Binary f → Binary f → Binary f
  | nan, b => b
  | a, nan => a
  | a, b => if a < b then a else b

/-- The largest of some numbers. -/
def largest? : List (Binary f) → Option (Binary f)
  | [] => none
  | x :: rest => some (rest.foldl maximum x)

/-- The smallest of some numbers. -/
def smallest? : List (Binary f) → Option (Binary f)
  | [] => none
  | x :: rest => some (rest.foldl minimum x)

end Binary

end LayerQuant
