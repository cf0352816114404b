import LayerQuant.Json.Encoding
import LayerQuant.Pipeline.Report

/-!
# Reports as documents

A report is printed with one member per field, by any encoding. The document of a report is the one
that JSON gives.
-/

namespace LayerQuant

variable (encoding : Encoding)

/-- The scales of a layer as data. -/
def LayerScales.toData (layer : LayerScales) : Data :=
  .members
    [("id", .nat layer.id), ("name", .text layer.name), ("kind", .choice layer.kind.name),
      ("input_scale", .single layer.inputScale), ("output_scale", .single layer.outputScale),
      ("weight_scale", .ofSingle? layer.weightScale?),
      ("output_range", .ofSingle? layer.outputRange?)]

/-- The keys of the scales of a layer, each with whether its member may be left out. -/
def LayerScales.keys : List (String × Bool) :=
  [("id", false), ("name", false), ("kind", false), ("input_scale", false),
    ("output_scale", false), ("weight_scale", true), ("output_range", true)]

/-- Decodes the scales of a layer. -/
def LayerScales.decode? (form : encoding.Form) : Option LayerScales := do
  let [id, name, kind, inputScale, outputScale, weightScale, outputRange] ←
    encoding.toMembers? keys form | none
  some
    { id := ← encoding.toNat? id, name := ← encoding.toText? name
      kind := ← (encoding.toChoice? kind).bind Kind.ofName?
      inputScale := ← encoding.toSingle? inputScale
      outputScale := ← encoding.toSingle? outputScale
      weightScale? := ← encoding.toOptionalSingle? weightScale
      outputRange? := ← encoding.toOptionalSingle? outputRange }

/-- An anomaly as data. -/
def RangeAnomaly.toData (anomaly : RangeAnomaly) : Data :=
  .members
    [("layer", .nat anomaly.layer), ("name", .text anomaly.name),
      ("calibrated", .single anomaly.calibrated), ("aggregated", .single anomaly.aggregated)]

/-- The keys of an anomaly. -/
def RangeAnomaly.keys : List (String × Bool) :=
  [("layer", false), ("name", false), ("calibrated", false), ("aggregated", false)]

/-- Decodes an anomaly. -/
def RangeAnomaly.decode? (form : encoding.Form) : Option RangeAnomaly := do
  let [layer, name, calibrated, aggregated] ← encoding.toMembers? keys form | none
  some
    { layer := ← encoding.toNat? layer, name := ← encoding.toText? name
      calibrated := ← encoding.toSingle? calibrated
      aggregated := ← encoding.toSingle? aggregated }

/-- A conflict as data. -/
def ScaleConflict.toData (conflict : ScaleConflict) : Data :=
  .members
    [("layer", .nat conflict.layer), ("input", .nat conflict.input),
      ("required", .single conflict.required), ("actual", .single conflict.actual)]

/-- The keys of a conflict. -/
def ScaleConflict.keys : List (String × Bool) :=
  [("layer", false), ("input", false), ("required", false), ("actual", false)]

/-- Decodes a conflict. -/
def ScaleConflict.decode? (form : encoding.Form) : Option ScaleConflict := do
  let [layer, input, required, actual] ← encoding.toMembers? keys form | none
  some
    { layer := ← encoding.toNat? layer, input := ← encoding.toNat? input
      required := ← encoding.toSingle? required, actual := ← encoding.toSingle? actual }

namespace Report

/-- A report as data. -/
def toData (report : Report) : Data :=
  .members
    [("layers", .items (report.layers.map (·.toData))), ("calibrated", .bool report.calibrated),
      ("seeded_layers", .nat report.seededLayers),
      ("propagation_steps", .nat report.propagationSteps), ("restarts", .nat report.restarts),
      ("anomalies", .items (report.anomalies.map (·.toData))),
      ("conflicts", .items (report.conflicts.map (·.toData)))]

/-- The keys of a report. -/
def keys : List (String × Bool) :=
  [("layers", false), ("calibrated", false), ("seeded_layers", false),
    ("propagation_steps", false), ("restarts", false), ("anomalies", false), ("conflicts", false)]

/-- Decodes a report. -/
def decode? (form : encoding.Form) : Option Report := do
  let [layers, calibrated, seededLayers, propagationSteps, restarts, anomalies, conflicts] ←
    encoding.toMembers? keys form | none
  some
    { layers := ← encoding.toList? (LayerScales.decode? encoding) layers
      calibrated := ← encoding.toBool? calibrated
      seededLayers := ← encoding.toNat? seededLayers
      propagationSteps := ← encoding.toNat? propagationSteps
      restarts := ← encoding.toNat? restarts
      anomalies := ← encoding.toList? (RangeAnomaly.decode? encoding) anomalies
      conflicts := ← encoding.toList? (ScaleConflict.decode? encoding) conflicts }

/-- Prints a report, or says why it cannot be printed. -/
def print (report : Report) : Except String String :=
  (encoding.print report.toData).mapError ("Serialization error: " ++ ·)

/-- Reads a printed report. -/
def read? (text : String) : Option Report := (encoding.parse? text).bind (decode? encoding)

/-- The document of a report. -/
def document (report : Report) : String := (Json.ofData report.toData).toIndented

/-- Printing as JSON yields the document. -/
theorem print_json (report : Report) : report.print .json = .ok report.document := rfl

/-- Reads the document of a report. -/
def ofDocument? : String → Option Report := read? .json

end Report

/-- The scale and ranges of a tensor as JSON, each value followed by whether it is known. -/
def Edge.toJson (edge : Edge) : Json :=
  .ofMembers
    [("scale", .ofSingle edge.scale), ("scale_set", .bool edge.scale?.isSome),
      ("levels", .number (if edge.levels < 0 then .negative edge.levels.natAbs
        else .natural edge.levels.natAbs)),
      ("min_values", .array (edge.minima.map .ofSingle)),
      ("max_values", .array (edge.maxima.map .ofSingle)),
      ("dynamic_range", .ofSingle edge.range), ("dynamic_range_set", .bool edge.range?.isSome),
      ("aggregated_dynamic_range", .ofSingle edge.aggregated),
      ("aggregated_dynamic_range_set", .bool edge.aggregated?.isSome)]

end LayerQuant
