/-!
# Stages of a quantization

A quantization goes through its stages in order and ends complete or failed.
-/

namespace LayerQuant

/-- Where a quantization stands. -/
inductive Stage where
  | idle
  | copyingGraph
  | seedingInputs
  | loadingCalibration
  | propagatingRanges
  | derivingScales
  | quantizing
  | complete
  | failed
deriving DecidableEq, Repr, Inhabited

namespace Stage

/-- Every stage. -/
def all : List Stage :=
  [idle, copyingGraph, seedingInputs, loadingCalibration, propagatingRanges, derivingScales,
    quantizing, complete, failed]

/-- The stage in words. -/
def title : Stage → String
  | idle => "Idle"
  | copyingGraph => "Copying Graph"
  | seedingInputs => "Seeding Inputs"
  | loadingCalibration => "Loading Calibration"
  | propagatingRanges => "Propagating Ranges"
  | derivingScales => "Deriving Scales"
  | quantizing => "Quantizing"
  | complete => "Complete"
  | failed => "Failed"

/-- Whether the quantization is over. -/
def isTerminal : Stage → Bool
  | complete | failed => true
  | _ => false

/-- Whether the quantization is under way. -/
def isActive (stage : Stage) : Bool := !stage.isTerminal && stage != idle

/-- The stage after this one when it succeeds. -/
def next : Stage → Stage
  | idle => copyingGraph
  | copyingGraph => seedingInputs
  | seedingInputs => loadingCalibration
  | loadingCalibration => propagatingRanges
  | propagatingRanges => derivingScales
  | derivingScales => quantizing
  | quantizing => complete
  | complete => complete
  | failed => failed

end Stage

end LayerQuant
