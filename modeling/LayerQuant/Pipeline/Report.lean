import LayerQuant.Range.Propagation
import LayerQuant.Sweep.Run

/-!
# Reports

A report lists the scales chosen for every layer and what the passes met on the way. Shown as text
it is a table with a heading, below two lines on the run, and followed by a warning for each anomaly
and conflict.
-/

namespace LayerQuant

/-- The scales chosen for a layer. -/
structure LayerScales where
  id : Nat
  name : String
  kind : Kind
  inputScale : Single
  outputScale : Single
  /-- The scale of the weights, for a layer of a kind that has them. -/
  weightScale? : Option Single
  /-- The aggregated output range, if it is known. -/
  outputRange? : Option Single
deriving DecidableEq

/-- The summary of a quantization. -/
structure Report where
  layers : List LayerScales := []
  /-- Whether calibration was used. -/
  calibrated : Bool := false
  /-- Number of layers with a calibrated range. -/
  seededLayers : Nat := 0
  /-- Number of visits of range propagation. -/
  propagationSteps : Nat := 0
  /-- Number of restarts of the sweep. -/
  restarts : Nat := 0
  anomalies : List RangeAnomaly := []
  conflicts : List ScaleConflict := []
deriving DecidableEq

/-- The chosen scales of a layer by its entry. -/
def LayerScales.ofEdges (layer : Layer) (edges : LayerEdges) : LayerScales where
  id := layer.id
  name := layer.name
  kind := layer.kind
  inputScale := edges.input.scale
  outputScale := edges.output.scale
  weightScale? := if layer.kind.hasWeights then some edges.weights.scale else none
  outputRange? := edges.output.aggregated?

/-- The chosen scales of the layers that a table has an entry for. -/
def Network.layerScales (network : Network) (table : EdgeTable) : List LayerScales :=
  (network.layers.toList.zip table.layers.toList).map fun (layer, edges) => .ofEdges layer edges

namespace Report

/-- The scales of the first layer with the given name. -/
def find? (report : Report) (name : String) : Option LayerScales :=
  report.layers.find? (·.name == name)

/-- A number in the text of a report. -/
def number (x : Single) : String := x.toFixed 4

/-- A number that may be missing. -/
def number? : Option Single → String
  | some x => number x
  | none => "-"

/-- The row of a layer. -/
def layerRow (layer : LayerScales) : String :=
  "\t".intercalate
    [alignRight 4 (toString layer.id), layer.kind.name, number layer.inputScale,
      number layer.outputScale, number? layer.weightScale?, number? layer.outputRange?, layer.name]

/-- The warning of an anomaly. -/
def anomalyLine (anomaly : RangeAnomaly) : String :=
  "warning: layer '" ++ anomaly.name ++ "' range " ++ number anomaly.aggregated ++
    " exceeds calibrated " ++ number anomaly.calibrated

/-- The warning of a conflict. -/
def conflictLine (conflict : ScaleConflict) : String :=
  s!"warning: layer {conflict.layer} needs input {conflict.input} at scale " ++
    number conflict.required ++ ", has " ++ number conflict.actual

/-- The line on calibration. -/
def calibrationLine (report : Report) : String :=
  if report.calibrated then
    s!"Calibration: {report.seededLayers} layers seeded, " ++
      s!"{report.propagationSteps} propagation steps"
  else "Calibration: none"

/-- The report as text, each line ended by a line feed. -/
def text (report : Report) : String :=
  let lines :=
    [report.calibrationLine, s!"Restarts: {report.restarts}",
      "Id\tKind\tIn scale\tOut scale\tWeight scale\tRange\tName"] ++
    report.layers.map layerRow ++ report.anomalies.map anomalyLine ++
    report.conflicts.map conflictLine
  String.join (lines.map (· ++ "\n"))

/-- Whether two optional numbers are equal or both missing. -/
def sameNumber? : Option Single → Option Single → Bool
  | some a, some b => a.sameNumber b
  | none, none => true
  | _, _ => false

/-- Whether the scales of two layers are equal as numbers. -/
def agreesLayer (a b : LayerScales) : Bool :=
  a.id == b.id && a.name == b.name && a.kind == b.kind && a.inputScale.sameNumber b.inputScale &&
    a.outputScale.sameNumber b.outputScale && sameNumber? a.weightScale? b.weightScale? &&
    sameNumber? a.outputRange? b.outputRange?

/-- Whether two anomalies are equal as numbers. -/
def agreesAnomaly (a b : RangeAnomaly) : Bool :=
  a.layer == b.layer && a.name == b.name && a.calibrated.sameNumber b.calibrated &&
    a.aggregated.sameNumber b.aggregated

/-- Whether two conflicts are equal as numbers. -/
def agreesConflict (a b : ScaleConflict) : Bool :=
  a.layer == b.layer && a.input == b.input && a.required.sameNumber b.required &&
    a.actual.sameNumber b.actual

/-- Whether two lists agree item by item. -/
def agreesAll {α : Type} (agree : α → α → Bool) (a b : List α) : Bool :=
  a.length == b.length && (a.zip b).all fun (x, y) => agree x y

/-- Whether two reports are equal as numbers. A datum that is not a number agrees with none. -/
def agrees (a b : Report) : Bool :=
  agreesAll agreesLayer a.layers b.layers && a.calibrated == b.calibrated &&
    a.seededLayers == b.seededLayers && a.propagationSteps == b.propagationSteps &&
    a.restarts == b.restarts && agreesAll agreesAnomaly a.anomalies b.anomalies &&
    agreesAll agreesConflict a.conflicts b.conflicts

end Report

end LayerQuant
