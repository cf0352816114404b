import LayerQuant.Graph.Layer

/-!
# Networks

A network is grown layer by layer. Each operation checks what it is given and returns the new
network, so a refused operation changes nothing. Forward inputs of a layer always name layers that
are already there; recurrent inputs may name any layer.
-/

namespace LayerQuant

/-- Why a network was not changed or ordered. -/
inductive GraphError where
  | unknownLayer (id : Nat)
  | unknownLayerName (name : String)
  | duplicateName (name : String)
  | missingInputs (name : String) (kind : Kind)
  | unexpectedWeights (name : String)
  | cycle (ordered total : Nat)
deriving DecidableEq, Repr

/-- The wording of a graph error. -/
def GraphError.message : GraphError → String
  | unknownLayer id => s!"Unknown layer id {id}"
  | unknownLayerName name => s!"Unknown layer name '" ++ name ++ "'"
  | duplicateName name => s!"Duplicate layer name '" ++ name ++ "'"
  | missingInputs name kind =>
    "Layer '" ++ name ++ "' of kind " ++ kind.name ++ " needs at least one input"
  | unexpectedWeights name => "Layer '" ++ name ++ "' does not take weights"
  | cycle ordered total => s!"Forward edges contain a cycle: ordered {ordered} of {total} layers"

/-- A computation graph. Layers stand at the position that is their id. -/
structure Network where
  layers : Array Layer := #[]
  /-- The graph inputs in the order of their declaration. -/
  inputs : List Nat := []
deriving DecidableEq, Inhabited

namespace Network

/-- Number of layers. -/
def size (network : Network) : Nat := network.layers.size

/-- The layer with the given id. -/
def layer? (network : Network) (id : Nat) : Option Layer := network.layers[id]?

/-- The layer with the given name. -/
def find? (network : Network) (name : String) : Option Nat :=
  network.layers.findIdx? (·.name == name)

/-- Appends a layer under a fresh name. -/
def append (network : Network) (name : String) (kind : Kind) (inputs : List Nat) :
    Except GraphError (Network × Nat) :=
  if (network.find? name).isSome then .error (.duplicateName name)
  else
    let id := network.size
    .ok ({ network with layers := network.layers.push { id, name, kind, inputs } }, id)

/-- Adds an input of the network. -/
def addInput (network : Network) (name : String) : Except GraphError (Network × Nat) := do
  let (grown, id) ← network.append name .input []
  pure ({ grown with inputs := grown.inputs ++ [id] }, id)

/-- Adds a layer that reads layers already in the network. Only inputs and memory reads may have no
producer, and an input has none. -/
def addLayer (network : Network) (name : String) (kind : Kind) (inputs : List Nat) :
    Except GraphError (Network × Nat) :=
  if kind = .input then network.addInput name
  else if inputs.isEmpty ∧ kind ≠ .memory then .error (.missingInputs name kind)
  else
    match inputs.find? (network.size ≤ ·) with
    | some id => .error (.unknownLayer id)
    | none => network.append name kind inputs

/-- Gives a layer its weights and biases, in place of those it had. -/
def setWeights (network : Network) (id : Nat) (weights : List Single)
    (biases : Option (List Single)) : Except GraphError Network :=
  match network.layer? id with
  | none => .error (.unknownLayer id)
  | some layer =>
    if layer.kind.hasWeights then
      .ok { network with
        layers := network.layers.modify id ({ · with weights := some weights, biases }) }
    else .error (.unexpectedWeights layer.name)

/-- Lets the layer `target` read, one step later, what `source` produces. -/
def addRecurrentEdge (network : Network) (source target : Nat) : Except GraphError Network :=
  if network.size ≤ source then .error (.unknownLayer source)
  else
    match network.layer? target with
    | none => .error (.unknownLayer target)
    | some layer =>
      if source ∈ layer.recurrentInputs then .ok network
      else
        .ok { network with
          layers := network.layers.modify target fun layer =>
            { layer with recurrentInputs := layer.recurrentInputs ++ [source] } }

/-- The layers that read the given layer, forward or recurrent, each once and by id. -/
def successors (network : Network) (id : Nat) : List Nat :=
  (network.layers.toList.filter (·.predecessors.contains id)).map (·.id)

/-- The successors of every layer. -/
def successorLists (network : Network) : Array (List Nat) :=
  Array.ofFn fun id : Fin network.size => network.successors id

end Network

end LayerQuant
