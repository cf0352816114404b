import LayerQuant.Graph.Network

/-!
# Network descriptions

A description names the layers that each layer reads. Building it resolves the names: forward inputs
must name layers described before, recurrent inputs may name any layer of the description.
-/

namespace LayerQuant

/-- The description of one layer. -/
structure LayerDescription where
  name : String
  kind : Kind
  inputs : List String := []
  recurrentInputs : List String := []
  weights : Option (List Single) := none
  biases : Option (List Single) := none
deriving DecidableEq, Inhabited

/-- The description of a network, its layers in order. -/
structure Description where
  layers : List LayerDescription := []
deriving DecidableEq, Inhabited

namespace Network

/-- The layer with the given name, which a description refers to. -/
def resolve (network : Network) (name : String) : Except GraphError Nat :=
  match network.find? name with
  | some id => .ok id
  | none => .error (.unknownLayerName name)

/-- Adds a described layer with its forward inputs and parameters. Biases count only beside
weights. -/
def addDescribed (network : Network) (layer : LayerDescription) : Except GraphError Network := do
  let inputs ← layer.inputs.mapM network.resolve
  let (grown, id) ← network.addLayer layer.name layer.kind inputs
  match layer.weights with
  | some weights => grown.setWeights id weights layer.biases
  | none => pure grown

/-- Adds the recurrent inputs of the layer at the given position. -/
def addRecurrent (network : Network) (layer : LayerDescription × Nat) :
    Except GraphError Network :=
  layer.1.recurrentInputs.foldlM
    (fun network name => do network.addRecurrentEdge (← network.resolve name) layer.2) network

end Network

namespace Description

/-- Builds the network. -/
def build (description : Description) : Except GraphError Network := do
  let network ← description.layers.foldlM Network.addDescribed {}
  description.layers.zipIdx.foldlM Network.addRecurrent network

end Description

end LayerQuant
