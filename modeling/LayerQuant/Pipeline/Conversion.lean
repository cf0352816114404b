import LayerQuant.Edge.Basic
import LayerQuant.Error
import LayerQuant.Graph.Layer

/-!
# Conversion to integers

The weights and biases of a layer are multiplied by their scales, rounded to the nearest integer
with a half going away from zero, and kept within the storage type. Biases are integers of 32 bits
and are multiplied at double precision.
-/

namespace LayerQuant

/-- Integer weights. -/
structure IntegerWeights where
  precision : Precision
  values : List Int
deriving DecidableEq

/-- The integer parameters of a layer. -/
structure ConvertedLayer where
  id : Nat
  name : String
  kind : Kind
  weights : Option IntegerWeights
  biases : Option (List Int)
deriving DecidableEq

/-- How layers are converted. -/
structure Converter where
  precision : Precision
  /-- Number of activation levels. -/
  levels : Int

/-- The converter that a configuration describes. -/
def Config.converter (config : Config) : Converter :=
  ⟨config.weightsPrecision, config.scaleRule.levels⟩

/-- The integer of a weight. -/
def Precision.quantize (precision : Precision) (scale weight : Single) : Int :=
  (weight * scale).nearestInt precision.lowest precision.highest

/-- The integer of a bias. -/
def quantizeBias (scale bias : Single) : Int :=
  (bias.convert .double * scale.convert .double).nearestInt (-2147483648) 2147483647

namespace Converter

/-- The entry of the weights after conversion: their least and greatest value, if there are any, and
the number of levels of the storage type. -/
def weightEdge (converter : Converter) (weights : List Single) (edge : Edge) : Edge :=
  let edge :=
    if weights.isEmpty then edge
    else
      { edge with
        minima := [weights.foldl .minimum .infinity]
        maxima := [weights.foldl .maximum .negativeInfinity] }
  { edge with levels := converter.precision.levels }

/-- The weights that a layer converts. Layers of other kinds have none. -/
def weightsOf (layer : Layer) : Option (List Single) :=
  if layer.kind.hasWeights then layer.weights else none

/-- The entry of a layer after conversion. -/
def convertEdges (converter : Converter) (layer : Layer) (edges : LayerEdges) : LayerEdges :=
  let edges := { edges with
    input := { edges.input with levels := converter.levels }
    output := { edges.output with levels := converter.levels } }
  match weightsOf layer with
  | some weights =>
    { edges with
      weights := converter.weightEdge weights edges.weights, weightsQuantized := true }
  | none => edges

/-- The integer parameters of a layer by the scales of its entry. -/
def convertLayer (converter : Converter) (layer : Layer) (edges : LayerEdges) : ConvertedLayer where
  id := layer.id
  name := layer.name
  kind := layer.kind
  weights := (weightsOf layer).map fun weights =>
    ⟨converter.precision, weights.map (converter.precision.quantize edges.weights.scale)⟩
  biases := layer.biases.map fun biases => biases.map (quantizeBias edges.bias.scale)

/-- Converts a layer and notes it in the table. -/
def convert (converter : Converter) (layer : Layer) (table : EdgeTable) :
    Except Error (EdgeTable × ConvertedLayer) :=
  if layer.id < table.size then
    .ok (table.modify layer.id (converter.convertEdges layer),
      converter.convertLayer layer (table.get layer.id))
  else .error (.unknownLayer layer.id)

/-- Converts the layers with the given ids in order. -/
def convertIds (converter : Converter) (network : Network) :
    List Nat → EdgeTable → Except Error (EdgeTable × List ConvertedLayer)
  | [], table => .ok (table, [])
  | id :: rest, table =>
    match network.layer? id with
    | none => .error (.unknownLayer id)
    | some layer => do
      let (table, converted) ← converter.convert layer table
      let (table, later) ← converter.convertIds network rest table
      pure (table, converted :: later)

end Converter

end LayerQuant
