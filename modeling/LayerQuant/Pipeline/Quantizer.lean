import LayerQuant.Pipeline.Conversion
import LayerQuant.Pipeline.Report
import LayerQuant.Pipeline.Stage
import LayerQuant.Range.Seed

/-!
# Quantizing a network

A quantization works on a copy of the network: it gives the inputs their scales, takes ranges from
calibration and propagates them, derives all scales, and converts the parameters to integers.
Without calibration no range is known and none is propagated.

A quantizer keeps its configuration and how its last call ended; no call depends on the one before.
-/

namespace LayerQuant

/-- The result of a quantization. -/
structure Quantized where
  /-- The network that was quantized, as the caller's revision left it. -/
  network : Network
  table : EdgeTable
  /-- The integer parameters in topological order. -/
  layers : List ConvertedLayer
  report : Report

/-- The integer parameters of the first layer with the given name. -/
def Quantized.find? (quantized : Quantized) (name : String) : Option ConvertedLayer :=
  quantized.layers.find? (·.name == name)

/-- A caller's hand in the copied network. It is called with `true` when the network is copied and
with `false` when the copy is final, and may keep a state of its own. -/
abbrev Revision (σ : Type) := Bool → Network → σ → σ × Except Error Network

namespace EdgeTable

/-- Gives inputs their scales in order. -/
def seedScales : List (Nat × Single) → EdgeTable → Except Error EdgeTable
  | [], table => .ok table
  | (id, scale) :: rest, table =>
    if !scale.isFinite || scale ≤ .zero then .error (.configuration (.inputScale scale))
    else if id < table.size then seedScales rest (table.modifyInput id (·.setScale scale))
    else .error (.unknownLayer id)

/-- Gives the inputs of a network their scales in the order of declaration. Scales beyond the last
input are left aside. -/
def seedInputs (table : EdgeTable) (network : Network) (scales : List Single) :
    Except Error EdgeTable :=
  if scales.isEmpty then .error .emptyScaleFactors
  else if scales.length < network.inputs.length then
    .error (.missingInputScales network.inputs.length scales.length)
  else seedScales (network.inputs.zip scales) table

/-- Takes ranges from calibration and propagates them. The count is the number of layers with a
calibrated range. -/
def calibrate (table : EdgeTable) (config : Config) (network : Network) (store : Store) :
    Except Error (EdgeTable × Nat × Propagation) := do
  let (table, seeded) := table.seed network store
  let seeded ← seeded
  let (table, normalized) := table.normalizeInputs network config.maxInputFeature
  normalized
  let (table, propagation) := config.propagator.propagate network table
  pure (table, seeded, ← propagation)

end EdgeTable

namespace Config

/-- Quantizes a network that is final. -/
def quantizeFinal (config : Config) (network : Network) (scales : List Single)
    (store : Option Store) : Except Error Quantized := do
  let table ← (EdgeTable.empty network.size).seedInputs network scales
  let (table, seededLayers, propagation) ←
    match store with
    | some store => table.calibrate config network store
    | none => pure (table, 0, {})
  let plan ← (config.sweepPlan network).mapError .graph
  let (sweep, finished) := plan.run (.start network table)
  finished
  let (table, layers) ← config.converter.convertIds network plan.order sweep.table
  pure
    { network, table, layers
      report :=
        { layers := network.layerScales table, calibrated := store.isSome, seededLayers
          propagationSteps := propagation.steps, restarts := sweep.restarts
          anomalies := propagation.anomalies, conflicts := sweep.conflicts } }

/-- Quantizes a copy of a network that the caller may revise first. -/
def quantize {σ : Type} (config : Config) (network : Network) (scales : List Single)
    (store : Option Store) (revise : Revision σ) (state : σ) : σ × Except Error Quantized :=
  match config.validate with
  | .error error => (state, .error (.configuration (.unusable error)))
  | .ok () =>
    match revise true network state with
    | (state, .error error) => (state, .error error)
    | (state, .ok network) =>
      match revise false network state with
      | (state, .error error) => (state, .error error)
      | (state, .ok network) => (state, config.quantizeFinal network scales store)

end Config

/-- A configuration with the outcome of the last quantization. -/
structure Quantizer where
  config : Config
  stage : Stage := .idle
  /-- The wording of the error, if the last quantization failed. -/
  error : Option String := none

namespace Quantizer

/-- Forgets the last quantization. -/
def reset (quantizer : Quantizer) : Quantizer := { config := quantizer.config }

/-- Whether the last quantization succeeded. -/
def succeeded (quantizer : Quantizer) : Bool := quantizer.stage == .complete

/-- Whether the last quantization failed. -/
def failed (quantizer : Quantizer) : Bool := quantizer.stage == .failed

/-- The quantizer after a quantization with the given result. -/
def record (quantizer : Quantizer) (result : Except Error Quantized) : Quantizer :=
  match result with
  | .ok _ => { quantizer with stage := .complete, error := none }
  | .error error => { quantizer with stage := .failed, error := some error.message }

/-- The statistics in the configured snapshot. A snapshot that is missing or not readable counts as
no calibration. -/
def configuredStore (quantizer : Quantizer) (folder : Folder) : Option Store := do
  let path ← quantizer.config.statsPath
  (Snapshot.load (folder.read path)).toOption

/-- Leaves the network as it is. -/
def noRevision : Revision Unit := fun _ network state => (state, .ok network)

/-- Quantizes with the given statistics, or without calibration. -/
def quantizeWithStats (quantizer : Quantizer) (network : Network) (scales : List Single)
    (store : Option Store) : Quantizer × Except Error Quantized :=
  let (_, result) := quantizer.config.quantize network scales store noRevision ()
  (quantizer.record result, result)

/-- Quantizes with the configured snapshot and one scale per input. -/
def quantize (quantizer : Quantizer) (folder : Folder) (network : Network)
    (scales : List Single) : Quantizer × Except Error Quantized :=
  quantizer.quantizeWithStats network scales (quantizer.configuredStore folder)

/-- Quantizes a network with a single input. -/
def quantizeSingle (quantizer : Quantizer) (folder : Folder) (network : Network)
    (scale : Single) : Quantizer × Except Error Quantized :=
  quantizer.quantize folder network [scale]

/-- Quantizes with the configured snapshot a copy that the caller revises first. -/
def quantizeWithCallback {σ : Type} (quantizer : Quantizer) (folder : Folder) (network : Network)
    (scales : List Single) (revise : Revision σ) (state : σ) :
    Quantizer × σ × Except Error Quantized :=
  let (state, result) :=
    quantizer.config.quantize network scales (quantizer.configuredStore folder) revise state
  (quantizer.record result, state, result)

end Quantizer

end LayerQuant
