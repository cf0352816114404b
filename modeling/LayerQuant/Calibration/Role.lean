/-!
# Tensor roles

A layer has four tensors that calibration looks at. Their order here is the order of the records in
a snapshot, and each has a letter that names it there.
-/

namespace LayerQuant

/-- Which tensor of a layer a record describes. -/
inductive Role where
  | input
  | output
  | weight
  | bias
deriving DecidableEq, Repr

namespace Role

/-- All roles in the order of a snapshot. -/
def all : List Role := [input, output, weight, bias]

/-- Position of the role in that order. -/
def index : Role → Nat
  | input => 0
  | output => 1
  | weight => 2
  | bias => 3

/-- The letter of the role in a snapshot. -/
def tag : Role → Char
  | input => 'I'
  | output => 'O'
  | weight => 'W'
  | bias => 'B'

/-- The role with the given letter. -/
def ofTag? (c : Char) : Option Role := all.find? (·.tag == c)

@[simp] theorem ofTag?_tag (role : Role) : ofTag? role.tag = some role := by
  cases role <;> rfl

end Role

end LayerQuant
