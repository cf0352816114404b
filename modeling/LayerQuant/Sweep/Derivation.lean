import LayerQuant.Sweep.Basic

/-!
# Deriving the scales of a layer

A graph input keeps the scale it was given, a memory read takes the scale of its range, and every
other layer starts from the smallest scale of its inputs. Deriving either yields the scales of the
layer, or tightens caps on its producers and yields nothing.
-/

namespace LayerQuant

/-- The scales derived for a layer. -/
structure DerivedScales where
  input : Single
  output : Single
  /-- Scales of the weights and of the biases, for a layer that has them. -/
  weights? : Option (Single × Single) := none
deriving DecidableEq

/-- Writes derived scales into the entry of a layer. -/
def LayerEdges.setScales (edges : LayerEdges) (scales : DerivedScales) : LayerEdges :=
  let edges := { edges with
    input := edges.input.setScale scales.input, output := edges.output.setScale scales.output }
  match scales.weights? with
  | some (weights, bias) =>
    { edges with weights := edges.weights.setScale weights, bias := edges.bias.setScale bias }
  | none => edges

/-- The relative difference up to which two scales count as equal. -/
def scaleTolerance : Single := .ofDecimal .single false 1 (-6)

namespace SweepPlan

/-- The scale that the aggregated output range of a layer asks for. -/
def rangeScale? (plan : SweepPlan) (sweep : Sweep) (id : Nat) : Option Single :=
  (sweep.table.get id).output.rangeScale? plan.rule

/-- The smallest scale of a layer's inputs. A layer that needs them at one scale caps the producers
whose scale exceeds the smallest by more than the tolerance; without a value, some cap was
tightened. -/
def inputScale (plan : SweepPlan) (layer : Layer) (sweep : Sweep) : Sweep × Option Single :=
  match Binary.smallest? (layer.inputs.map sweep.outputScale) with
  | none => (sweep, some plan.defaultScale)
  | some least =>
    if layer.kind.needsUniformInputs then
      let finer := layer.inputs.filter fun id =>
        let scale := sweep.outputScale id
        decide (scaleTolerance * scale < scale - least)
      let (sweep, tightened) := plan.pushCaps finer least layer.id sweep
      (sweep, if tightened then none else some least)
    else (sweep, some least)

/-- The weight scale that brings the largest weight to the precision's largest one. -/
def weightScale (plan : SweepPlan) (layer : Layer) : Single :=
  let largest := layer.maxAbsWeight
  if .zero < largest then plan.precision.maxWeight / largest else .ofNat .single 1

/-- The scale that the output of a weighted layer may not exceed. -/
def outputLimit? (plan : SweepPlan) (sweep : Sweep) (id : Nat) : Option Single :=
  Binary.smallest? [plan.rangeScale? sweep id, sweep.cap? id].reduceOption

/-- The weight scale and output scale of a weighted layer. An output beyond its limit lowers the
weight scale; if the weights would lose precision by that, the producers are asked for a coarser
scale first, and without a value, some cap was tightened. -/
def weightedScales (plan : SweepPlan) (layer : Layer) (input : Single) (sweep : Sweep) :
    Sweep × Option (Single × Single) :=
  let weights := plan.weightScale layer
  let output := input * weights
  match plan.outputLimit? sweep layer.id with
  | none => (sweep, some (weights, output))
  | some limit =>
    if limit < output then
      let needed := limit / input
      if needed < .ofNat .single 1 then
        let (sweep, tightened) := plan.pushCaps layer.inputs limit layer.id sweep
        (sweep, if tightened then none else some (needed, limit))
      else (sweep, some (needed, limit))
    else (sweep, some (weights, output))

/-- The output scale of a layer without weights from the scale of its inputs. -/
def plainOutput (plan : SweepPlan) (layer : Layer) (input : Single) (sweep : Sweep) : Single :=
  match layer.kind, plan.rangeScale? sweep layer.id with
  | .activation, some range => range
  | .eltwise, some range => input.minimum range
  | _, _ => input

/-- Derives the scales of a layer. -/
def derive (plan : SweepPlan) (layer : Layer) (sweep : Sweep) : Sweep × Option DerivedScales :=
  match layer.kind with
  | .input =>
    let scale := (sweep.table.get layer.id).input.scale?.getD plan.defaultScale
    (sweep, some { input := scale, output := scale })
  | .memory =>
    let scale :=
      sweep.capped layer.id ((plan.rangeScale? sweep layer.id).getD plan.defaultScale)
    (sweep, some { input := scale, output := scale })
  | kind =>
    match plan.inputScale layer sweep with
    | (sweep, none) => (sweep, none)
    | (sweep, some input) =>
      if kind.hasWeights then
        match plan.weightedScales layer input sweep with
        | (sweep, none) => (sweep, none)
        | (sweep, some (weights, output)) =>
          (sweep, some
            { input, output := sweep.capped layer.id output, weights? := some (weights, output) })
      else
        (sweep, some
          { input, output := sweep.capped layer.id (plan.plainOutput layer input sweep) })

end SweepPlan

end LayerQuant
