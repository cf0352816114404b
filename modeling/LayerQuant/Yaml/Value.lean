import LayerQuant.Binary.Arithmetic
import LayerQuant.Yaml.Node

/-!
# Values of a YAML document

What a node means depends on the field it stands in. A text takes any scalar as it is written;
numbers and truth values must be written plainly. A plain scalar without characters, and the words
for null, say that an optional field is absent. An empty value is also an empty list or an empty
mapping.
-/

namespace LayerQuant.Yaml

/-- Whether a plain scalar says that there is no value. -/
def isNullWord (text : String) : Bool :=
  text == "" || text == "null" || text == "Null" || text == "NULL" || text == "~"

/-- Whether a node is the value that is not written at all. -/
def isEmpty : Yaml → Bool
  | scalar text plain => plain && text == ""
  | _ => false

/-- A text. -/
def toText? : Yaml → Option String
  | scalar text _ => some text
  | _ => none

/-- The text of a scalar that is written plainly. -/
def plain? : Yaml → Option (List Char)
  | scalar text true => some text.toList
  | _ => none

/-- A truth value. -/
def toBool? (node : Yaml) : Option Bool := do
  let word := String.ofList (← node.plain?)
  if word == "true" || word == "True" || word == "TRUE" then some true
  else if word == "false" || word == "False" || word == "FALSE" then some false
  else none

/-- Whether a scalar is a row of digits with a zero in front, which is not a number. -/
def hasLeadingZero (text : List Char) : Bool :=
  match (Decimal.splitSign text).2 with
  | '0' :: digit :: rest => (digit :: rest).all Char.isDigit
  | _ => false

/-- Reads a row of digits of a base up to 16. -/
def ofBase? (base : Nat) (digits : List Char) : Option Nat :=
  if digits.isEmpty then none
  else
    digits.foldlM
      (fun value c => do
        let digit ← Json.hexValue? c
        if digit < base then some (value * base + digit) else none) 0

/-- Reads a whole number: decimal, or hexadecimal, octal or binary after `0x`, `0o` or `0b`. -/
def naturalOf? (text : List Char) : Option Nat :=
  let digits := match text with
    | '+' :: rest => rest
    | text => text
  match digits with
  | '0' :: 'x' :: rest => ofBase? 16 rest
  | '0' :: 'o' :: rest => ofBase? 8 rest
  | '0' :: 'b' :: rest => ofBase? 2 rest
  | digits => if hasLeadingZero text then none else ofBase? 10 digits

/-- A whole number below `2 ^ bits`. -/
def toNat? (bits : Nat) (node : Yaml) : Option Nat := do
  let value ← naturalOf? (← node.plain?)
  if value < Nat.pow 2 bits then some value else none

/-- Reads a number of double precision. Infinities and not-a-number have words of their own, and a
decimal that is too large is not a number. -/
def doubleOf? (text : List Char) : Option Double :=
  let word := String.ofList text
  let unsigned := match text with
    | '+' :: rest => rest
    | text => text
  let unsignedWord := String.ofList unsigned
  if unsignedWord == ".inf" || unsignedWord == ".Inf" || unsignedWord == ".INF" then
    some .infinity
  else if word == "-.inf" || word == "-.Inf" || word == "-.INF" then some .negativeInfinity
  else if word == ".nan" || word == ".NaN" || word == ".NAN" then some .nan
  else if unsigned.head? == some '+' || (unsigned.head? == some '-' && text.head? == some '+') then
    none
  else
    match Binary.ofChars? .double unsigned with
    | some x => if x.isFinite then some x else none
    | none => none

/-- A number of single precision, read at double precision first. -/
def toSingle? (node : Yaml) : Option Single := do
  some ((← doubleOf? (← node.plain?)).convert .single)

/-- A value that may be absent. -/
def toOptional? {α : Type} (read : Yaml → Option α) (node : Yaml) : Option (Option α) :=
  match node with
  | scalar text true => if isNullWord text then some none else (read node).map some
  | _ => (read node).map some

/-- Items that are all read alike. -/
def toList? {α : Type} (read : Yaml → Option α) : Yaml → Option (List α)
  | sequence items => items.mapM read
  | node => if node.isEmpty then some [] else none

/-- The members of a mapping, the keys as texts. -/
def members? : Yaml → Option (List (String × Yaml))
  | mapping members => members.mapM fun (key, value) => do some (← key.toText?, value)
  | node => if node.isEmpty then some [] else none

/-- The value of a field among the members of a mapping, if it is there. A field given twice is
refused. -/
def field? (members : List (String × Yaml)) (key : String) : Option (Option Yaml) :=
  match members.filter (·.1 == key) with
  | [] => some none
  | [(_, value)] => some (some value)
  | _ => none

/-- Reads a field that must be there. -/
def required? {α : Type} (members : List (String × Yaml)) (key : String)
    (read : Yaml → Option α) : Option α := do
  read (← (← field? members key))

/-- Reads a field that has a default. -/
def defaulted? {α : Type} (members : List (String × Yaml)) (key : String)
    (read : Yaml → Option α) (default : α) : Option α := do
  match ← field? members key with
  | some value => read value
  | none => some default

end LayerQuant.Yaml
