import LayerQuant.Error
import LayerQuant.Graph.Description
import LayerQuant.Yaml.Value

/-!
# Reading network descriptions

A description is a mapping with the list of its layers, and each layer a mapping of its fields. The
name and kind of a layer must be there.
-/

namespace LayerQuant

/-- Reads the description of a layer. -/
def LayerDescription.ofYaml? (node : Yaml) : Option LayerDescription := do
  let members ← node.members?
  let names := Yaml.toList? Yaml.toText?
  let numbers := Yaml.toOptional? (Yaml.toList? Yaml.toSingle?)
  some
    { name := ← Yaml.required? members "name" Yaml.toText?
      kind := ← Yaml.required? members "kind" fun node => node.toText?.bind Kind.ofName?
      inputs := ← Yaml.defaulted? members "inputs" names []
      recurrentInputs := ← Yaml.defaulted? members "recurrent_inputs" names []
      weights := ← Yaml.defaulted? members "weights" numbers none
      biases := ← Yaml.defaulted? members "biases" numbers none }

namespace Description

/-- Reads the layers of a mapping. -/
def ofYaml? (node : Yaml) : Option Description := do
  let members ← node.members?
  some ⟨← Yaml.required? members "layers" (Yaml.toList? LayerDescription.ofYaml?)⟩

/-- Reads a description from text. -/
def parse (text : String) : Except Error Description :=
  match (Yaml.ofText? text).bind fun node => ofYaml? (node.getD .empty) with
  | some description => .ok description
  | none => .error (.configuration .malformedDescription)

/-- Reads a description from the file at a path. -/
def load (path : String) (content : FileContent) : Except Error Description :=
  match content.text with
  | .ok text => parse text
  | .error fault => .error (.configuration (.unreadableDescription path fault))

end Description

end LayerQuant
