import LayerQuant.Sweep.Derivation

/-!
# Running a sweep

A pass derives the unprocessed layers in order until one of them asks for a restart; the next pass
begins at the first layer that is unprocessed by then. The sweep ends when every layer is processed,
and fails when it is asked to restart once too often.
-/

namespace LayerQuant

namespace Sweep

/-- Writes the scales of a layer and marks it processed. -/
def settle (sweep : Sweep) (id : Nat) (scales : DerivedScales) : Sweep :=
  { sweep with
    table := sweep.table.modify id (·.setScales scales)
    processed := sweep.processed.setIfInBounds id true }

end Sweep

namespace SweepPlan

/-- Counts a restart and asks for it, unless the restarts are used up. -/
def scheduleRestart (plan : SweepPlan) (sweep : Sweep) : Sweep × Except Error Unit :=
  let sweep := { sweep with restarts := sweep.restarts + 1 }
  if plan.maxRestarts < sweep.restarts then (sweep, .error (.scaleNotConverged plan.maxRestarts))
  else ({ sweep with restartPending := true }, .ok ())

/-- Derives and writes the scales of a layer, or schedules a restart. -/
def transform (plan : SweepPlan) (id : Nat) (sweep : Sweep) : Sweep × Except Error Unit :=
  match plan.network.layer? id with
  | none => (sweep, .error (.unknownLayer id))
  | some layer =>
    if sweep.table.size ≤ id then (sweep, .error (.unknownLayer id))
    else
      match plan.derive layer sweep with
      | (sweep, some scales) => (sweep.settle id scales, .ok ())
      | (sweep, none) => plan.scheduleRestart sweep

/-- The unprocessed layers in order. -/
def unprocessed (plan : SweepPlan) (sweep : Sweep) : List Nat :=
  plan.order.filter (!sweep.isProcessed ·)

/-- Begins a pass: the layers it will go through, with no restart pending. -/
def startPass (plan : SweepPlan) (sweep : Sweep) : Sweep × List Nat :=
  ({ sweep with restartPending := false }, plan.unprocessed sweep)

/-- Goes through layers until one fails or asks for a restart. -/
def pass (plan : SweepPlan) : List Nat → Sweep → Sweep × Except Error Unit
  | [], sweep => (sweep, .ok ())
  | id :: rest, sweep =>
    match plan.transform id sweep with
    | (sweep, .error error) => (sweep, .error error)
    | (sweep, .ok ()) => if sweep.restartPending then (sweep, .ok ()) else pass plan rest sweep

/-- Runs passes until every layer is processed. -/
def passes (plan : SweepPlan) : Nat → Sweep → Sweep × Except Error Unit
  | 0, sweep => (sweep, .ok ())
  | count + 1, sweep =>
    if sweep.allProcessed then (sweep, .ok ())
    else
      let (sweep, ids) := plan.startPass sweep
      match plan.pass ids sweep with
      | (sweep, .error error) => (sweep, .error error)
      | (sweep, .ok ()) => passes plan count sweep

/-- Runs the sweep. Every pass but the last one takes a restart, so one more pass than there are
restarts left is enough. -/
def run (plan : SweepPlan) (sweep : Sweep) : Sweep × Except Error Unit :=
  if sweep.table.size < plan.network.size then
    (sweep, .error (.unknownLayer sweep.table.size))
  else plan.passes (plan.maxRestarts - sweep.restarts + 1) sweep

end SweepPlan

end LayerQuant
