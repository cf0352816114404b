import LayerQuant.Decimal.Fixed
import LayerQuant.Json.Basic

/-!
# Writing JSON

Documents are written on one line, or with one member or item per line and two blanks of indentation
per level. Decimals are written by position when the exponent of their first digit is from -6 to 12,
and then always have a point.
-/

namespace LayerQuant

namespace JsonNumber

/-- The first exponent of a leading digit that is written by position. -/
def leastPositional : Int := -6

/-- The last exponent of a leading digit that is written by position. -/
def greatestPositional : Int := 12

/-- Writes a decimal with an exponent, its sign always given. -/
def writeScientific (digits : List Char) (exponent : Int) : String :=
  let mantissa := match digits with
    | first :: second :: rest => first :: '.' :: second :: rest
    | digits => digits
  String.ofList mantissa ++ (if exponent < 0 then "e-" else "e+") ++ toString exponent.natAbs

/-- Writes a decimal. -/
def writeDecimal (value : Decimal) : String :=
  let digits := Nat.toDigits 10 value.coefficient
  let leading := value.exponent + digits.length - 1
  if value.coefficient = 0 then "0.0"
  else if leading < leastPositional ∨ greatestPositional < leading then
    writeScientific digits leading
  else if 0 ≤ value.exponent then
    toString (value.coefficient * Nat.pow 10 value.exponent.toNat) ++ ".0"
  else Decimal.writeFixed (-value.exponent).toNat value.coefficient

/-- Writes a number. -/
def write : JsonNumber → String
  | natural value => toString value
  | negative magnitude => "-" ++ toString magnitude
  | real minus value => (if minus then "-" else "") ++ writeDecimal value

end JsonNumber

namespace Json

/-- The characters that stand for one character of a string. -/
def escape (c : Char) : List Char :=
  match c with
  | '"' => ['\\', '"']
  | '\\' => ['\\', '\\']
  | '\n' => ['\\', 'n']
  | '\r' => ['\\', 'r']
  | '\t' => ['\\', 't']
  | '\x08' => ['\\', 'b']
  | '\x0c' => ['\\', 'f']
  | c =>
    if c.toNat < 0x20 then
      ['\\', 'u', '0', '0', Nat.digitChar (c.toNat / 16), Nat.digitChar (c.toNat % 16)]
    else [c]

/-- Writes a string. -/
def writeText (text : String) : String :=
  String.ofList ('"' :: text.toList.flatMap escape ++ ['"'])

/-- How the parts of a document are set apart. -/
structure Style where
  /-- What follows the colon of a member. -/
  afterColon : String
  /-- What starts a line at the given level of nesting. -/
  newLine : Nat → String

/-- Everything on one line. -/
def Style.compact : Style := ⟨"", fun _ => ""⟩

/-- One member or item per line, indented by two blanks per level. -/
def Style.indented : Style :=
  ⟨" ", fun level => "\n" ++ String.ofList (List.replicate (2 * level) ' ')⟩

/-- Sets written parts between brackets. -/
def bracket (style : Style) (level : Nat) (opening closing : String) (parts : List String) :
    String :=
  match parts with
  | [] => opening ++ closing
  | parts =>
    opening ++ style.newLine (level + 1) ++
      ("," ++ style.newLine (level + 1)).intercalate parts ++ style.newLine level ++ closing

mutual

/-- Writes a value at a level of nesting. A string without a text is written as an empty one. -/
def write (style : Style) (level : Nat) : Json → String
  | null => "null"
  | bool value => if value then "true" else "false"
  | number value => value.write
  | string text => writeText (text.getD "")
  | array items => bracket style level "[" "]" (writeItems style (level + 1) items)
  | object members => bracket style level "\x7b" "\x7d" (writeMembers style (level + 1) members)

/-- Writes the items of an array. -/
def writeItems (style : Style) (level : Nat) : List Json → List String
  | [] => []
  | item :: rest => write style level item :: writeItems style level rest

/-- Writes the members of an object. -/
def writeMembers (style : Style) (level : Nat) : List (Option String × Json) → List String
  | [] => []
  | (key, value) :: rest =>
    (writeText (key.getD "") ++ ":" ++ style.afterColon ++ write style level value) ::
      writeMembers style level rest

end

/-- The document on one line. -/
def toCompact (value : Json) : String := value.write .compact 0

/-- The document with indentation. -/
def toIndented (value : Json) : String := value.write .indented 0

end Json

end LayerQuant
