import LayerQuant.Json.Reader
import LayerQuant.Json.Writer
import LayerQuant.Pipeline.Encoding

/-!
# JSON as an encoding

Data is written as JSON with indentation. When an object is read, members with other keys are left
aside, a member given twice or missing is refused, and an array of the values in order stands for an
object. A number that may be missing is null or left out of an object.
-/

namespace LayerQuant

namespace Json

/-- A whole number below `2 ^ 64`. -/
def toNat? : Json → Option Nat
  | number (.natural value) => some value
  | _ => none

/-- A truth value. -/
def toBool? : Json → Option Bool
  | bool value => some value
  | _ => none

/-- A text. -/
def toText? : Json → Option String
  | string text => text
  | _ => none

/-- A number of single precision. -/
def toSingle? : Json → Option Single
  | number value => value.toSingle?
  | _ => none

/-- A number of single precision, or null for none. -/
def toOptionalSingle? : Json → Option (Option Single)
  | null => some none
  | value => value.toSingle?.map some

/-- The name of a choice, which may stand alone or as the key of null. -/
def toChoice? : Json → Option String
  | string text => text
  | object [(key, null)] => key
  | _ => none

/-- The items of an array. -/
def toItems? : Json → Option (List Json)
  | array items => items
  | _ => none

/-- The values of the given keys in order: those of an object, null standing for one that may be
left out, or the items of an array of the same length. The flag of a key says whether it may be left
out. -/
def fields? (keys : List (String × Bool)) : Json → Option (List Json)
  | array items => if items.length = keys.length then some items else none
  | object members =>
    if members.all (·.1.isSome) then
      keys.mapM fun (key, optional) =>
        match members.filter (·.1 == some key) with
        | [(_, value)] => some value
        | [] => if optional then some null else none
        | _ => none
    else none
  | _ => none

mutual

/-- The value that is written for data. -/
def ofData : Data → Json
  | .null => null
  | .single x => ofSingle x
  | .nat n => ofNat n
  | .bool value => bool value
  | .text text => ofText text
  | .choice name => ofText name
  | .items parts => array (ofItems parts)
  | .members parts => object (ofParts parts)

/-- The values that are written for items. -/
def ofItems : List Data → List Json
  | [] => []
  | part :: rest => ofData part :: ofItems rest

/-- The members that are written for members of data. -/
def ofParts : List (String × Data) → List (Option String × Json)
  | [] => []
  | (key, part) :: rest => (some key, ofData part) :: ofParts rest

end

end Json

/-- Data printed as JSON and parsed from it. -/
def Encoding.json : Encoding where
  print data := .ok (Json.ofData data).toIndented
  Form := Json
  parse? := Json.ofText?
  toSingle? := Json.toSingle?
  toOptionalSingle? := Json.toOptionalSingle?
  toNat? := Json.toNat?
  toBool? := Json.toBool?
  toText? := Json.toText?
  toChoice? := Json.toChoice?
  toItems? := Json.toItems?
  toMembers? := Json.fields?

end LayerQuant
