import LayerQuant.Edge.Basic
import LayerQuant.Error
import LayerQuant.Graph.Order

/-!
# The sweep over scales

The sweep derives the scales of the layers in topological order. When a layer needs its producers to
use a smaller scale it caps them, which makes every layer from the first capped one on unprocessed
again. This module holds what a sweep works on and how caps reach the layers that can follow them.
-/

namespace LayerQuant

/-- A requirement that reached a graph input. The scale of an input is the caller's, so the layer
goes on with inputs that do not match. -/
structure ScaleConflict where
  /-- The layer whose requirement is not met. -/
  layer : Nat
  /-- The graph input it was passed to. -/
  input : Nat
  /-- The scale that the input would need. -/
  required : Single
  /-- The scale that the input has. -/
  actual : Single
deriving DecidableEq

/-- What stays fixed during a sweep. -/
structure SweepPlan where
  network : Network
  /-- A topological order of the network. -/
  order : List Nat
  rule : ScaleRule
  defaultScale : Single
  precision : Precision
  /-- How often the sweep may restart. -/
  maxRestarts : Nat

/-- The sweep over a network that a configuration describes. -/
def Config.sweepPlan (config : Config) (network : Network) : Except GraphError SweepPlan := do
  let order ← network.topologicalOrder
  pure
    { network, order, rule := config.scaleRule, defaultScale := config.defaultScale,
      precision := config.weightsPrecision, maxRestarts := config.maxRestarts }

/-- A sweep in progress. -/
structure Sweep where
  /-- For every layer whether its scales are derived. -/
  processed : Array Bool
  /-- For every layer the bound on its output scale, if it has one. -/
  caps : Array (Option Single)
  /-- How often the sweep was asked to restart. -/
  restarts : Nat := 0
  /-- Whether the last layer made others unprocessed. -/
  restartPending : Bool := false
  conflicts : List ScaleConflict := []
  table : EdgeTable
deriving DecidableEq

namespace Sweep

/-- A sweep in which no layer is processed. -/
def start (network : Network) (table : EdgeTable) : Sweep :=
  { processed := Array.replicate network.size false
    caps := Array.replicate network.size none, table }

/-- Whether the scales of a layer are derived. -/
def isProcessed (sweep : Sweep) (id : Nat) : Bool := sweep.processed.getD id false

/-- Whether the scales of all layers are derived. -/
def allProcessed (sweep : Sweep) : Bool := sweep.processed.all (·)

/-- The bound on the output scale of a layer. -/
def cap? (sweep : Sweep) (id : Nat) : Option Single := sweep.caps.getD id none

/-- A scale under the bound of a layer. -/
def capped (sweep : Sweep) (id : Nat) (scale : Single) : Single :=
  match sweep.cap? id with
  | some cap => scale.minimum cap
  | none => scale

/-- The output scale of a layer in the table. -/
def outputScale (sweep : Sweep) (id : Nat) : Single := (sweep.table.get id).output.scale

/-- Makes the layers of a list unprocessed. -/
def unprocess (sweep : Sweep) (ids : List Nat) : Sweep :=
  { sweep with
    processed := ids.foldl (fun processed id => processed.setIfInBounds id false) sweep.processed }

/-- Notes a conflict, once for each layer and input. -/
def noteConflict (sweep : Sweep) (conflict : ScaleConflict) : Sweep :=
  if sweep.conflicts.any fun c => c.layer == conflict.layer && c.input == conflict.input then sweep
  else { sweep with conflicts := sweep.conflicts ++ [conflict] }

end Sweep

namespace Network

/-- Follows forward inputs back from the layers on a stack, through layers that take over the scale
of their inputs, to those that can follow a cap and to graph inputs. The stack is worked off from
its top, where the last input of a layer comes to lie. -/
def frontierFrom (network : Network) : Nat → List Nat → List Nat → List Nat
  | 0, _, _ => []
  | _ + 1, [], _ => []
  | pops + 1, id :: stack, visited =>
    if id ∈ visited then frontierFrom network pops stack visited
    else
      match network.layer? id with
      | none => frontierFrom network pops stack (id :: visited)
      | some layer =>
        if layer.isInput || layer.kind.canRescale then
          id :: frontierFrom network pops stack (id :: visited)
        else frontierFrom network pops (layer.inputs.reverse ++ stack) (id :: visited)

/-- The number of forward edges. -/
def edgeCount (network : Network) : Nat := (network.layers.toList.flatMap (·.inputs)).length

/-- The layers that a cap on the output of `start` reaches, in the order of the search. Each layer
is expanded once, so one more pop than there are edges is enough. -/
def frontier (network : Network) (start : Nat) : List Nat :=
  network.frontierFrom (network.edgeCount + 1) [start] []

end Network

namespace SweepPlan

/-- The layers from the given one on in the order of the sweep. -/
def onwards (plan : SweepPlan) (id : Nat) : List Nat := plan.order.drop (plan.order.idxOf id)

/-- Lets a cap arrive at a layer of the frontier: a graph input has a conflict with the consumer,
any other layer gets the cap if it is tighter than the one it has. The flag says whether a cap was
tightened, now or before. -/
def placeCap (plan : SweepPlan) (cap : Single) (consumer : Nat) (state : Sweep × Bool) (id : Nat) :
    Sweep × Bool :=
  let (sweep, tightened) := state
  match plan.network.layer? id with
  | none => state
  | some layer =>
    if layer.isInput then
      (sweep.noteConflict
        { layer := consumer, input := id, required := cap, actual := sweep.outputScale id },
        tightened)
    else
      let tighter := match sweep.cap? id with
        | some known => decide (cap < known)
        | none => true
      if tighter then
        ({ sweep.unprocess (plan.onwards id) with caps := sweep.caps.setIfInBounds id (some cap) },
          true)
      else state

/-- Caps the output scale of a layer for a consumer, or the scales that it is taken over from. -/
def pushCap (plan : SweepPlan) (start : Nat) (cap : Single) (consumer : Nat)
    (state : Sweep × Bool) : Sweep × Bool :=
  (plan.network.frontier start).foldl (plan.placeCap cap consumer) state

/-- Caps the output scales of several layers for a consumer. -/
def pushCaps (plan : SweepPlan) (starts : List Nat) (cap : Single) (consumer : Nat)
    (sweep : Sweep) : Sweep × Bool :=
  starts.foldl (fun state start => plan.pushCap start cap consumer state) (sweep, false)

end SweepPlan

end LayerQuant
