import LayerQuant.Binary.Basic

/-!
# Encodings of data

Data is printed and parsed by an `Encoding`, of which nothing is known here but the operations that
it offers. Parsing yields forms, which are decoded by what is expected of them.
-/

namespace LayerQuant

/-- Data to be printed. -/
inductive Data where
  | null
  | single (x : Single)
  | nat (n : Nat)
  | bool (value : Bool)
  | text (text : String)
  /-- One of several choices, by its name. -/
  | choice (name : String)
  | items (parts : List Data)
  /-- Members in order, each under its key. -/
  | members (parts : List (String × Data))

namespace Data

/-- A number that may be missing. -/
def ofSingle? : Option Single → Data
  | some x => single x
  | none => null

end Data

/-- A way to print and to parse data. -/
structure Encoding where
  /-- The text of data, or why it has none. -/
  print : Data → Except String String
  Form : Type
  parse? : String → Option Form
  /-- A number that must be there. -/
  toSingle? : Form → Option Single
  /-- A number that may be missing. -/
  toOptionalSingle? : Form → Option (Option Single)
  toNat? : Form → Option Nat
  toBool? : Form → Option Bool
  toText? : Form → Option String
  toChoice? : Form → Option String
  toItems? : Form → Option (List Form)
  /-- The members with the given keys in order. The flag of a key says whether its member may be
  left out. -/
  toMembers? : List (String × Bool) → Form → Option (List Form)

namespace Encoding

variable (encoding : Encoding)

/-- Items that are all read alike. -/
def toList? {α : Type} (read : encoding.Form → Option α) (form : encoding.Form) :
    Option (List α) := do
  let items ← encoding.toItems? form
  items.mapM read

end Encoding

end LayerQuant
