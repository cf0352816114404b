import LayerQuant.Error
import LayerQuant.Yaml.Value

/-!
# Reading configurations

A configuration is a mapping of its settings. A setting that is left out has its default, and keys
that are no settings are left aside. An empty document is the default configuration. What was read
must be usable.
-/

namespace LayerQuant

namespace Config

/-- Reads the settings of a mapping. -/
def ofYaml? (node : Yaml) : Option Config := do
  let members ← node.members?
  let base : Config := {}
  some
    { guardband := ← Yaml.defaulted? members "guardband" Yaml.toSingle? base.guardband
      activationBits :=
        ← Yaml.defaulted? members "activation_bits" (Yaml.toNat? 8) base.activationBits
      weightsPrecision :=
        ← Yaml.defaulted? members "weights_precision"
          (fun node => node.toText?.bind Precision.ofName?) base.weightsPrecision
      maxInputFeature :=
        ← Yaml.defaulted? members "max_input_feature_value" Yaml.toSingle? base.maxInputFeature
      minRange := ← Yaml.defaulted? members "min_dynamic_range" Yaml.toSingle? base.minRange
      defaultScale := ← Yaml.defaulted? members "default_scale" Yaml.toSingle? base.defaultScale
      statsPath :=
        ← Yaml.defaulted? members "stats_path" (Yaml.toOptional? Yaml.toText?) base.statsPath
      maxPropagationSteps :=
        ← Yaml.defaulted? members "max_propagation_steps" (Yaml.toNat? 64)
          base.maxPropagationSteps
      maxRestarts := ← Yaml.defaulted? members "max_restarts" (Yaml.toNat? 64) base.maxRestarts
      anomalyTolerance :=
        ← Yaml.defaulted? members "anomaly_tolerance" Yaml.toSingle? base.anomalyTolerance
      strictRanges := ← Yaml.defaulted? members "strict_ranges" Yaml.toBool? base.strictRanges }

/-- Reads a configuration from text and checks it. -/
def parse (text : String) : Except Error Config :=
  match (Yaml.ofText? text).bind fun node => ofYaml? (node.getD .empty) with
  | none => .error (.configuration .malformedConfig)
  | some config =>
    match config.validate with
    | .ok () => .ok config
    | .error error => .error (.configuration (.unusableFile error))

/-- Reads a configuration from the file at a path. -/
def load (path : String) (content : FileContent) : Except Error Config :=
  match content.text with
  | .ok text => parse text
  | .error fault => .error (.configuration (.unreadableConfig path fault))

end Config

end LayerQuant
