import LayerQuant.Calibration.Snapshot
import LayerQuant.Config.Basic
import LayerQuant.Graph.Network

/-!
# Errors of a quantization

Each part of the library has its own errors. Here they are joined into one type for the operations
that go through several parts, and worded for the user.
-/

namespace LayerQuant

/-- What is wrong with something the caller configured. -/
inductive ConfigFault where
  /-- A setting is out of its range when a quantization starts. -/
  | unusable (error : ConfigError)
  /-- A setting read from a file is out of its range. -/
  | unusableFile (error : ConfigError)
  | unreadableConfig (path : String) (fault : FileFault)
  | malformedConfig
  | unreadableDescription (path : String) (fault : FileFault)
  | malformedDescription
  | inputScale (scale : Single)
  /-- A caller refused to go on, in its own words. -/
  | refused (reason : String)
deriving DecidableEq

/-- The wording of a configuration fault. -/
def ConfigFault.message : ConfigFault → String
  | unusable error => error.message
  | unusableFile error => "Invalid config: " ++ error.message
  | unreadableConfig path fault => "Failed to read config file " ++ path ++ ": " ++ fault.message
  | malformedConfig => "Failed to parse YAML config"
  | unreadableDescription path fault =>
    "Failed to read network description " ++ path ++ ": " ++ fault.message
  | malformedDescription => "Failed to parse network description"
  | inputScale scale =>
    "Input scale factor must be positive and finite, got " ++ scale.toPlain
  | refused reason => reason

/-- Why a quantization or a part of it failed. -/
inductive Error where
  /-- No input scale was given. -/
  | emptyScaleFactors
  /-- There are more inputs than scales. -/
  | missingInputScales (inputs provided : Nat)
  | configuration (fault : ConfigFault)
  | graph (error : GraphError)
  | store (error : StoreError)
  | snapshot (error : SnapshotError)
  /-- Range propagation used up its steps. -/
  | rangeNotConverged (steps : Nat)
  /-- The derivation of scales used up its restarts. -/
  | scaleNotConverged (restarts : Nat)
  /-- A propagated range exceeds the calibrated one, where that is an error. -/
  | rangeAnomaly (layer : String) (calibrated aggregated : Single)
  /-- A layer has no entry in a table or network. -/
  | unknownLayer (id : Nat)
deriving DecidableEq

namespace Error

/-- The wording of an error. -/
def message : Error → String
  | emptyScaleFactors => "Scale factor is empty"
  | missingInputScales inputs provided =>
    "Scale factors are not set for some of the inputs: " ++
      s!"{inputs} inputs, {provided} scale factors"
  | configuration fault => "Invalid configuration: " ++ fault.message
  | graph error => "Graph error: " ++ error.message
  | store error => "Statistics error: " ++ error.message
  | snapshot error => "Calibration snapshot error: " ++ error.message
  | rangeNotConverged steps =>
    s!"Dynamic range propagation did not converge after {steps} steps"
  | scaleNotConverged restarts =>
    s!"Scale factor derivation did not converge after {restarts} restarts"
  | rangeAnomaly layer calibrated aggregated =>
    "Dynamic range anomaly on layer '" ++ layer ++ "': calibrated " ++ calibrated.toPlain ++
      ", aggregated " ++ aggregated.toPlain
  | unknownLayer id => s!"Unknown layer id {id}"

/-- Whether the error stems from what the caller configured. -/
def isConfiguration : Error → Bool
  | emptyScaleFactors | missingInputScales _ _ | configuration _ => true
  | _ => false

end Error

end LayerQuant
