import LayerQuant.Binary.Basic

/-!
# Layers

A layer as far as quantization cares: what it does, whom it reads, and its parameters. Layers are
known by their position in the network.
-/

namespace LayerQuant

/-- The operation of a layer. -/
inductive Kind where
  | input
  | affine
  | diagonal
  | convolution
  | pooling
  | activation
  | eltwise
  | concat
  | split
  | reshape
  | transpose
  | copy
  /-- Reads a recurrent state that a later layer writes. -/
  | memory
deriving DecidableEq, Repr, Inhabited

namespace Kind

/-- Every kind. -/
def all : List Kind :=
  [input, affine, diagonal, convolution, pooling, activation, eltwise, concat, split, reshape,
    transpose, copy, memory]

/-- The name of a kind in descriptions and reports. -/
def name : Kind → String
  | input => "input"
  | affine => "affine"
  | diagonal => "diagonal"
  | convolution => "convolution"
  | pooling => "pooling"
  | activation => "activation"
  | eltwise => "eltwise"
  | concat => "concat"
  | split => "split"
  | reshape => "reshape"
  | transpose => "transpose"
  | copy => "copy"
  | memory => "memory"

/-- The kind with the given name. -/
def ofName? (text : String) : Option Kind := all.find? (·.name == text)

/-- Whether layers of this kind carry weights. -/
def hasWeights : Kind → Bool
  | affine | diagonal | convolution => true
  | _ => false

/-- Whether the output of such a layer can leave the range of its inputs. Layers that only move or
select values keep that range. -/
def altersRange : Kind → Bool
  | affine | diagonal | convolution | activation | eltwise => true
  | _ => false

/-- Whether such a layer chooses its own output scale. A memory read takes the scale of the range
stored for it. -/
def canRescale (kind : Kind) : Bool := kind.altersRange || kind == memory

/-- Whether all inputs of such a layer must arrive at one scale. -/
def needsUniformInputs : Kind → Bool
  | eltwise | input => false
  | _ => true

@[simp] theorem ofName?_name (kind : Kind) : ofName? kind.name = some kind := by
  cases kind <;> decide

end Kind

/-- A layer of a network. -/
structure Layer where
  /-- Position in the network. -/
  id : Nat
  name : String
  kind : Kind
  /-- Producers of this layer's inputs. -/
  inputs : List Nat := []
  /-- Producers that run later in the same step, so that this layer reads what they left in the
  step before. -/
  recurrentInputs : List Nat := []
  weights : Option (List Single) := none
  biases : Option (List Single) := none
deriving DecidableEq, Inhabited

namespace Layer

/-- All producers, forward and recurrent. -/
def predecessors (layer : Layer) : List Nat := layer.inputs ++ layer.recurrentInputs

/-- Whether the layer is an input of the network. -/
def isInput (layer : Layer) : Bool := layer.kind == .input

/-- The largest magnitude of a weight, zero without weights. -/
def maxAbsWeight (layer : Layer) : Single :=
  (layer.weights.getD []).foldl (fun largest w => largest.maximum w.abs) .zero

end Layer

end LayerQuant
