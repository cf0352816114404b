import LayerQuant.Calibration.Session
import LayerQuant.Calibration.Summary
import LayerQuant.Main
import LayerQuant.Proofs.BoundedScales
import LayerQuant.Proofs.CalibratedScales
import LayerQuant.Proofs.CheckedCalls
import LayerQuant.Proofs.CheckedCaps
import LayerQuant.Proofs.CheckedOrder
import LayerQuant.Proofs.CheckedRanges
import LayerQuant.Proofs.CheckedSweep
import LayerQuant.Proofs.Convergence
import LayerQuant.Proofs.DescribedNetworks
import LayerQuant.Proofs.FoldedExtrema
import LayerQuant.Proofs.Idempotence
import LayerQuant.Proofs.InPlace
import LayerQuant.Proofs.InsertionOrder
import LayerQuant.Proofs.JoinedByName
import LayerQuant.Proofs.LoweredScales
import LayerQuant.Proofs.NetworkEdits
import LayerQuant.Proofs.NotedConflicts
import LayerQuant.Proofs.PushedCaps
import LayerQuant.Proofs.QuantizedLayers
import LayerQuant.Proofs.QuantizedScales
import LayerQuant.Proofs.QuantizerCalls
import LayerQuant.Proofs.RaisedRanges
import LayerQuant.Proofs.RecordedSamples
import LayerQuant.Proofs.ReportRoundTrip
import LayerQuant.Proofs.ScaleFloor
import LayerQuant.Proofs.SessionSnapshot
import LayerQuant.Proofs.SnapshotPositions
import LayerQuant.Proofs.SweepBudget
import LayerQuant.Proofs.TopologicalOrder
import LayerQuant.Proofs.UnmetScales
import LayerQuant.Proofs.UsableScales
import LayerQuant.Proofs.WeightMagnitude
