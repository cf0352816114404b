import LayerQuant.Decimal.Plain
import LayerQuant.Edge.Scale

/-!
# Configuration

The settings of a quantization, their defaults, and the check that they are usable. The check names
the first setting at fault, in the order of the fields but for the file name and the flags.
-/

namespace LayerQuant

/-- The settings of a quantization. -/
structure Config where
  /-- Factor by which ranges are widened. -/
  guardband : Single := .ofRatio .single false 5 4
  /-- Width of the activations in bits. -/
  activationBits : Nat := 16
  weightsPrecision : Precision := .int16
  /-- The largest quantized value of an input feature. The range of an input is this value divided
  by the input's scale. -/
  maxInputFeature : Single := .ofNat .single 16384
  /-- Ranges up to this one count as unknown. -/
  minRange : Single := .ofDecimal .single false 1 (-20)
  /-- The scale of a tensor about which nothing is known. -/
  defaultScale : Single := .ofNat .single 1
  /-- The snapshot with the calibration, if there is one. -/
  statsPath : Option String := some "layer_statistics.txt"
  /-- How many layers range propagation may visit. -/
  maxPropagationSteps : Nat := 100000
  /-- How often the derivation of scales may restart. -/
  maxRestarts : Nat := 1024
  /-- Relative excess of a propagated range over the calibrated one that is not reported. -/
  anomalyTolerance : Single := .ofRatio .single false 1 1000
  /-- Whether a reported excess is an error. -/
  strictRanges : Bool := false
deriving DecidableEq

/-- A setting out of its range. -/
inductive ConfigError where
  | guardband (value : Single)
  | activationBits (value : Nat)
  | maxInputFeature (value : Single)
  | minRange (value : Single)
  | defaultScale (value : Single)
  | stepBudget (value : Nat)
  | anomalyTolerance (value : Single)
deriving DecidableEq

/-- The wording of a configuration error. -/
def ConfigError.message : ConfigError → String
  | guardband value => "Invalid guardband: " ++ value.toPlain ++ " (must be >= 1.0)"
  | activationBits value => s!"Invalid activation bits: {value} (must be in 2..=16)"
  | maxInputFeature value =>
    "Invalid max input feature value: " ++ value.toPlain ++ " (must be > 0.0)"
  | minRange value => "Invalid minimum dynamic range: " ++ value.toPlain ++ " (must be >= 0.0)"
  | defaultScale value => "Invalid default scale: " ++ value.toPlain ++ " (must be > 0.0)"
  | stepBudget value => s!"Invalid propagation step budget: {value} (must be > 0)"
  | anomalyTolerance value =>
    "Invalid anomaly tolerance: " ++ value.toPlain ++ " (must be >= 0.0)"

namespace Config

/-- Checks that every setting is usable. -/
def validate (config : Config) : Except ConfigError Unit := do
  if !config.guardband.isFinite || config.guardband < .ofNat .single 1 then
    throw (.guardband config.guardband)
  if config.activationBits < 2 || 16 < config.activationBits then
    throw (.activationBits config.activationBits)
  if !config.maxInputFeature.isFinite || config.maxInputFeature ≤ .zero then
    throw (.maxInputFeature config.maxInputFeature)
  if config.minRange.isNaN || config.minRange < .zero then
    throw (.minRange config.minRange)
  if !config.defaultScale.isFinite || config.defaultScale ≤ .zero then
    throw (.defaultScale config.defaultScale)
  if config.maxPropagationSteps = 0 then
    throw (.stepBudget config.maxPropagationSteps)
  if config.anomalyTolerance.isNaN || config.anomalyTolerance < .zero then
    throw (.anomalyTolerance config.anomalyTolerance)

/-- The rule from ranges to scales that the configuration sets. -/
def scaleRule (config : Config) : ScaleRule :=
  ⟨config.guardband, config.activationBits, config.minRange⟩

end Config

end LayerQuant
