import LayerQuant.Binary.Arithmetic

/-!
# From ranges to scales

A scale maps the dynamic range of a tensor, widened by a guardband, onto the levels of an integer
type. The larger the range, the smaller its scale.
-/

namespace LayerQuant

/-- Storage precision of quantized weights. -/
inductive Precision where
  | int8
  | int16
deriving DecidableEq, Repr, Inhabited

namespace Precision

/-- The name of a precision in configurations. -/
def name : Precision → String
  | int8 => "i8"
  | int16 => "i16"

/-- The precision with the given name. -/
def ofName? (text : String) : Option Precision := [int8, int16].find? (·.name == text)

/-- Width in bytes. -/
def bytes : Precision → Nat
  | int8 => 1
  | int16 => 2

/-- The largest weight magnitude that scales aim at. Weights of 16 bits leave one bit of headroom to
the accumulator. -/
def maxWeight : Precision → Single
  | int8 => .ofNat .single 127
  | int16 => .ofNat .single 16384

/-- The number of integers of the storage type. -/
def levels (precision : Precision) : Nat := Nat.pow 2 (8 * precision.bytes)

/-- The least integer of the storage type. -/
def lowest (precision : Precision) : Int := -(precision.levels / 2 : Nat)

/-- The greatest integer of the storage type. -/
def highest (precision : Precision) : Int := (precision.levels / 2 : Nat) - 1

end Precision

/-- The rule that turns a dynamic range into a scale. -/
structure ScaleRule where
  /-- Factor by which a range is widened. -/
  guardband : Single := .ofRatio .single false 5 4
  /-- Width of the activations in bits. -/
  activationBits : Nat := 16
  /-- Ranges up to this one count as unknown. -/
  minRange : Single := .ofDecimal .single false 1 (-20)
deriving DecidableEq

namespace ScaleRule

/-- The largest activation magnitude, half the number of levels. -/
def maxLevel (rule : ScaleRule) : Single := .ofRatio .single false (Nat.pow 2 rule.activationBits) 2

/-- The number of activation levels as an integer of 32 bits. One bit too many turns it negative,
and from 32 bits on it is the largest integer. -/
def levels (rule : ScaleRule) : Int :=
  if rule.activationBits < 31 then (Nat.pow 2 rule.activationBits : Nat)
  else if rule.activationBits = 31 then -2147483648
  else 2147483647

/-- The scale that maps the widened range, rounded up to an integer, onto the largest level. -/
def scaleFor (rule : ScaleRule) (range : Single) : Single :=
  rule.maxLevel / (range * rule.guardband).ceil

end ScaleRule

end LayerQuant
