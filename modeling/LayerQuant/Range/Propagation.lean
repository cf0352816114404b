import LayerQuant.Edge.Basic
import LayerQuant.Error
import LayerQuant.Graph.Order

/-!
# Propagation of ranges

Connected tensors share an aggregated range, the largest range known among them. Layers wait in a
queue to be visited. A visit joins the ranges that arrive at a layer into the layer's own tensors
and back into its producers, and every layer whose tensors changed is queued again with its
successors. Ranges only grow, so the queue runs empty; a bound on the visits guards against data
that are not numbers.
-/

namespace LayerQuant

/-- A layer whose propagated output range exceeds the calibrated one. -/
structure RangeAnomaly where
  layer : Nat
  name : String
  calibrated : Single
  aggregated : Single
deriving DecidableEq

/-- What a finished propagation reports. -/
structure Propagation where
  /-- Number of visits. -/
  steps : Nat := 0
  anomalies : List RangeAnomaly := []
deriving DecidableEq

/-- How ranges are propagated. -/
structure Propagator where
  /-- Whether a layer can leave the range of its inputs, so that only its input side is joined with
  its producers. -/
  alters : Layer → Bool := (·.kind.altersRange)
  /-- How many layers may be visited. -/
  maxSteps : Nat
  /-- The largest quantized value of an input feature. -/
  maxInputFeature : Single
  /-- Relative excess over a calibrated range that is no anomaly. -/
  tolerance : Single
  /-- Whether an anomaly is an error. -/
  strict : Bool

/-- The propagator that a configuration describes. -/
def Config.propagator (config : Config) : Propagator where
  maxSteps := config.maxPropagationSteps
  maxInputFeature := config.maxInputFeature
  tolerance := config.anomalyTolerance
  strict := config.strictRanges

namespace EdgeTable

/-- The largest range known at the outputs of a layer's producers. -/
def arrivingRange? (table : EdgeTable) (layer : Layer) : Option Single :=
  Binary.largest? (layer.predecessors.filterMap fun id => (table.get id).output.knownRange?)

/-- Joins a range into the outputs of the given layers and collects those that changed. -/
def raiseOutputs (range : Single) : List Nat → EdgeTable → EdgeTable × List Nat
  | [], table => (table, [])
  | id :: rest, table =>
    let raises := (table.get id).output.raises range
    let (result, changed) := raiseOutputs range rest (table.modifyOutput id (·.raise range))
    (result, if raises then id :: changed else changed)

/-- Joins the range that arrives at a layer into its own tensors. The result is the table, the
joined range, and whether the layer changed. -/
def joinLayer (alters : Layer → Bool) (layer : Layer) (arriving : Single) (table : EdgeTable) :
    EdgeTable × Single × Bool :=
  let edges := table.get layer.id
  if alters layer then
    (table.modifyInput layer.id (·.raise arriving), arriving, edges.input.raises arriving)
  else
    let joined :=
      [edges.input.aggregated?, edges.output.aggregated?].reduceOption.foldl .maximum arriving
    (table.modify layer.id fun edges =>
        { edges with input := edges.input.raise joined, output := edges.output.raise joined },
      joined, edges.input.raises joined || edges.output.raises joined)

/-- Visits a layer. The result is the table and the layers that changed, the visited one first. -/
def visit (alters : Layer → Bool) (layer : Layer) (table : EdgeTable) : EdgeTable × List Nat :=
  match table.arrivingRange? layer with
  | none => (table, [])
  | some arriving =>
    let (table, range, grew) := table.joinLayer alters layer arriving
    let own := if grew then [layer.id] else []
    if .zero < range then
      let (table, changed) := raiseOutputs range layer.predecessors table
      (table, own ++ changed)
    else (table, own)

end EdgeTable

/-- Layers waiting to be visited. -/
structure Worklist where
  queue : List Nat
  /-- For every layer whether it is in the queue. -/
  queued : Array Bool
  table : EdgeTable
  /-- Number of visits so far. -/
  steps : Nat := 0

namespace Worklist

/-- Appends a layer unless it is waiting already. -/
def enqueue (work : Worklist) (id : Nat) : Worklist :=
  if work.queued.getD id true then work
  else { work with queue := work.queue ++ [id], queued := work.queued.setIfInBounds id true }

/-- Visits the layer taken from the queue, whose rest is given, and queues what the visit
affects. -/
def step (alters : Layer → Bool) (network : Network) (successors : Array (List Nat))
    (work : Worklist) (id : Nat) (rest : List Nat) : Worklist :=
  let (table, changed) :=
    match network.layer? id with
    | some layer => work.table.visit alters layer
    | none => (work.table, [])
  let work : Worklist :=
    { queue := rest, queued := work.queued.setIfInBounds id false, table, steps := work.steps + 1 }
  (changed.flatMap fun id => id :: successors.getD id []).foldl enqueue work

/-- Visits layers until the queue is empty or no visit is left. -/
def drain (alters : Layer → Bool) (network : Network) (successors : Array (List Nat)) :
    Nat → Worklist → Worklist
  | 0, work => work
  | visits + 1, work =>
    match work.queue with
    | [] => work
    | id :: rest =>
      drain alters network successors visits (work.step alters network successors id rest)

end Worklist

namespace Propagator

/-- The anomaly of a layer, if it has one. -/
def anomaly? (propagator : Propagator) (table : EdgeTable) (layer : Layer) :
    Option RangeAnomaly := do
  let output := (table.get layer.id).output
  let calibrated ← output.range?
  let aggregated ← output.aggregated?
  if calibrated * (.ofNat .single 1 + propagator.tolerance) < aggregated then
    some { layer := layer.id, name := layer.name, calibrated, aggregated }
  else none

/-- Propagates ranges until nothing changes. The table is returned also when the propagation fails,
as the visits so far have left it. -/
def propagate (propagator : Propagator) (network : Network) (table : EdgeTable) :
    EdgeTable × Except Error Propagation :=
  if table.size < network.size then (table, .error (.unknownLayer table.size))
  else
    match network.topologicalOrder with
    | .error error => (table, .error (.graph error))
    | .ok order =>
      let work := Worklist.drain propagator.alters network network.successorLists
        propagator.maxSteps
        { queue := order, queued := Array.replicate network.size true, table }
      if !work.queue.isEmpty then
        (work.table, .error (.rangeNotConverged propagator.maxSteps))
      else
        let anomalies := network.layers.toList.filterMap (propagator.anomaly? work.table)
        match propagator.strict, anomalies with
        | true, first :: _ =>
          (work.table, .error (.rangeAnomaly first.name first.calibrated first.aggregated))
        | _, _ => (work.table, .ok { steps := work.steps, anomalies })

end Propagator

end LayerQuant
