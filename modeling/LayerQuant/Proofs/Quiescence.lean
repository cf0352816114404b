import Mathlib
import LayerQuant.Proofs.SweepRun

/-!
# The state that a sweep ends in

A layer whose requirements are met derives the scales of `scalesFor` and pushes nothing
(`Met.derive_eq`), so a settled layer that is derived again leaves everything as it is
(`Consistent.transform_eq`). A run that succeeds ends with every layer settled: no layer would change
the sweep any more, alone or in any sequence (`run_quiescent`).
-/

namespace LayerQuant

/-- A change that leaves the entry as it is leaves the table as it is. -/
theorem EdgeTable.modify_of_fixed {table : EdgeTable} {id : Nat}
    {change : LayerEdges → LayerEdges} (h : change (table.get id) = table.get id) :
    table.modify id change = table := by
  obtain ⟨layers⟩ := table
  show EdgeTable.mk (layers.modify id change) = ⟨layers⟩
  congr 1
  apply Array.ext_getElem?
  intro other
  rw [Array.getElem?_modify]
  split
  · rename_i hid
    subst hid
    cases hentry : layers[id]? with
    | none => rfl
    | some entry =>
        have hget : EdgeTable.get ⟨layers⟩ id = entry := by
          simp [EdgeTable.get, Array.getD_eq_getD_getElem?, hentry]
        rw [hget] at h
        rw [Option.map_some, h]
  · rfl

namespace Sweep

/-- Settling a processed layer that has its scales changes nothing. -/
theorem settle_of_fixed {sweep : Sweep} {id : Nat} {scales : DerivedScales}
    (hprocessed : sweep.isProcessed id = true)
    (h : (sweep.table.get id).setScales scales = sweep.table.get id) :
    sweep.settle id scales = sweep := by
  have hflags : sweep.processed.setIfInBounds id true = sweep.processed := by
    apply Array.ext_getElem?
    intro other
    rw [Array.getElem?_setIfInBounds]
    split
    · rename_i hid
      subst hid
      split
      · rename_i hsize
        unfold isProcessed at hprocessed
        simpa [Array.getD_eq_getD_getElem?, hsize] using hprocessed.symm
      · rename_i hsize
        simpa using hsize
    · rfl
  unfold settle
  rw [hflags, EdgeTable.modify_of_fixed h]

end Sweep

namespace SweepPlan

variable {plan : SweepPlan} {sweep final : Sweep} {layer : Layer} {cap : Single} {consumer : Nat}
  {k id : Nat}

/-! ## Requirements that are met -/

/-- Caps that are placed already are not pushed again. -/
theorem pushCaps_of_placed {starts : List Nat}
    (h : ∀ start ∈ starts, plan.Placed cap consumer sweep start) :
    plan.pushCaps starts cap consumer sweep = (sweep, false) := by
  rw [pushCaps_eq]
  have hheld : ∀ id ∈ starts.flatMap plan.network.frontier,
      plan.HoldsCap cap consumer sweep id := by
    intro id hid
    obtain ⟨start, hstart, hfrontier⟩ := List.mem_flatMap.1 hid
    exact h start hstart id hfrontier
  generalize starts.flatMap plan.network.frontier = ids at hheld ⊢
  induction ids with
  | nil => rfl
  | cons id rest ih =>
      rw [List.foldl_cons, (hheld id List.mem_cons_self).placeCap_eq]
      exact ih fun other hother => hheld other (List.mem_cons_of_mem _ hother)

/-- A layer whose inputs are met finds their scale. -/
theorem InputsMet.inputScale_eq (h : plan.InputsMet layer sweep) :
    plan.inputScale layer sweep = (sweep, some (plan.inputOf layer sweep)) := by
  unfold inputScale inputOf
  cases hleast : Binary.smallest? (layer.inputs.map sweep.outputScale) with
  | none => rfl
  | some least =>
      cases huniform : layer.kind.needsUniformInputs with
      | false => rfl
      | true =>
          have hplaced : ∀ p ∈ layer.inputs.filter fun id => decide
              (scaleTolerance * sweep.outputScale id < sweep.outputScale id - least),
              plan.Placed least layer.id sweep p := by
            intro p hp
            obtain ⟨hinput, hfiner⟩ := List.mem_filter.1 hp
            exact h huniform least hleast p hinput (of_decide_eq_true hfiner)
          simp only [if_true, pushCaps_of_placed hplaced, Bool.false_eq_true, if_false,
            Option.getD_some]

/-- A weighted layer whose limit is met finds its scales. -/
theorem LimitMet.weightedScales_eq (h : plan.LimitMet layer sweep) :
    plan.weightedScales layer (plan.inputOf layer sweep) sweep =
      (sweep, some (plan.limited layer (plan.inputOf layer sweep) sweep)) := by
  unfold weightedScales limited
  cases hlimit : plan.outputLimit? sweep layer.id with
  | none => rfl
  | some limit =>
      by_cases hexceeds : limit < plan.inputOf layer sweep * plan.weightScale layer
      · by_cases hcoarse : limit / plan.inputOf layer sweep < .ofNat .single 1
        · have hplaced := h limit hlimit hexceeds hcoarse
          simp only [hexceeds, hcoarse, if_true, pushCaps_of_placed hplaced, Bool.false_eq_true,
            if_false]
        · simp only [hexceeds, hcoarse, if_true, if_false]
      · simp only [hexceeds, if_false]

/-- A layer whose requirements are met derives its scales and pushes nothing. -/
theorem Met.derive_eq (h : plan.Met layer sweep) :
    plan.derive layer sweep = (sweep, some (plan.scalesFor layer sweep)) := by
  by_cases hinput : layer.kind = .input
  · exact derive_of_input hinput
  by_cases hmemory : layer.kind = .memory
  · exact derive_of_memory hmemory
  rw [derive_of_other hinput hmemory, (h.inputs hmemory).inputScale_eq]
  cases hkind : layer.kind.hasWeights with
  | false =>
      rw [scalesFor_of_plain hinput hmemory hkind]
      rfl
  | true =>
      rw [scalesFor_of_weighted hkind]
      simp only [if_true, (h.limit hkind).weightedScales_eq]

/-! ## Sequences of layers -/

/-- Transforming a settled layer changes nothing and asks for nothing. -/
theorem Consistent.transform_eq (hplan : plan.Ordered) (h : plan.Consistent k sweep)
    (hid : id < k) : plan.transform id sweep = (sweep, .ok ()) := by
  have hsize : id < plan.network.size := hid.trans_le h.atLayer.le_size
  obtain ⟨layer, hlayer⟩ := Network.exists_layer hsize
  have hsettled := h.settled hlayer hid
  have hscales := hsettled.scales
  rw [hplan.formed.id_eq hlayer] at hscales
  rw [SweepPlan.transform_eq hlayer (hsize.trans_le h.size_le), hsettled.met.derive_eq]
  show (sweep.settle id (plan.scalesFor layer sweep), Except.ok ()) = _
  rw [Sweep.settle_of_fixed ((h.atLayer.processed_iff id hsize).2 hid) hscales]

/-- Transforms layers one after the other, whatever each of them comes to. -/
def transforms (plan : SweepPlan) : List Nat → Sweep → Sweep × List (Except Error Unit)
  | [], sweep => (sweep, [])
  | id :: rest, sweep =>
    let (sweep, result) := plan.transform id sweep
    let (sweep, results) := transforms plan rest sweep
    (sweep, result :: results)

theorem Consistent.transforms_eq (hplan : plan.Ordered) (h : plan.Consistent k sweep)
    {ids : List Nat} (hids : ∀ id ∈ ids, id < k) :
    plan.transforms ids sweep = (sweep, List.replicate ids.length (.ok ())) := by
  induction ids with
  | nil => rfl
  | cons id rest ih =>
      have hrest := ih fun other hother => hids other (List.mem_cons_of_mem _ hother)
      unfold transforms
      simp only [h.transform_eq hplan (hids id List.mem_cons_self), hrest, List.length_cons,
        List.replicate_succ]

/-- Every configuration, usable or not, has a plan for a network that was built, and a run of it that
succeeds ends in a sweep that no layer would change. Transforming any layers in any order, repeated
ones included, succeeds each time and leaves the table, the caps, the conflicts, the processed layers
and the restarts as they are, with none pending. -/
theorem run_quiescent {network : Network} (hbuilt : network.Built) (config : Config) :
    ∃ plan, config.sweepPlan network = .ok plan ∧ ∀ table final,
      plan.run (.start network table) = (final, .ok ()) →
        final.restartPending = false ∧ ∀ ids : List Nat, (∀ id ∈ ids, id < network.size) →
          plan.transforms ids final = (final, List.replicate ids.length (.ok ())) := by
  have hplan := sweepPlan_of_built hbuilt config
  refine ⟨_, hplan, fun table final hrun => ?_⟩
  obtain ⟨hordered, _⟩ := sweepPlan_eq_ok hbuilt hplan
  obtain ⟨_, _, hconsistent, hpending⟩ := run_consistent hordered hrun
  exact ⟨hpending, fun ids hids => hconsistent.transforms_eq hordered hids⟩

/-- An activation of a graph input, and a layer that needs both at one scale. -/
def branched : Network where
  layers := #[{ id := 0, name := "samples", kind := .input },
    { id := 1, name := "active", kind := .activation, inputs := [0] },
    { id := 2, name := "both", kind := .concat, inputs := [0, 1] }]
  inputs := [0]

theorem branched_built : branched.Built := by
  have hsamples : Network.addInput {} "samples" =
      .ok (⟨#[{ id := 0, name := "samples", kind := .input }], [0]⟩, 0) := by cbv
  have hactive : Network.addLayer ⟨#[{ id := 0, name := "samples", kind := .input }], [0]⟩
      "active" .activation [0] =
      .ok (⟨#[{ id := 0, name := "samples", kind := .input },
        { id := 1, name := "active", kind := .activation, inputs := [0] }], [0]⟩, 1) := by cbv
  have hboth : Network.addLayer ⟨#[{ id := 0, name := "samples", kind := .input },
      { id := 1, name := "active", kind := .activation, inputs := [0] }], [0]⟩
      "both" .concat [0, 1] = .ok (branched, 2) := by cbv
  exact .addLayer (.addLayer (.addInput .empty hsamples) hactive) hboth

/-- The range of the activation is one hundred, so that its scale would be above the one of the
input. -/
def branchedTable : EdgeTable where
  layers := #[{}, { output := { aggregated? := some (.ofNat .single 100) } }, {}]

/-- The plan that the default configuration makes for `branched`. -/
def branchedPlan : SweepPlan where
  network := branched
  order := [0, 1, 2]
  rule := {}
  defaultScale := .ofNat .single 1
  precision := .int16
  maxRestarts := 1024

theorem branched_quiescent :
    (branchedPlan.run (.start branched branchedTable)).2 = .ok () ∧
      (branchedPlan.run (.start branched branchedTable)).1.restarts = 1 ∧
      branchedPlan.transforms [2, 0, 1, 2] (branchedPlan.run (.start branched branchedTable)).1 =
        ((branchedPlan.run (.start branched branchedTable)).1,
          [.ok (), .ok (), .ok (), .ok ()]) := by
  have hok : (branchedPlan.run (.start branched branchedTable)).2 = .ok () := by decide +kernel
  obtain ⟨plan, hplan, hquiescent⟩ := run_quiescent branched_built {}
  obtain rfl : plan = branchedPlan :=
    Except.ok.inj (hplan.symm.trans (sweepPlan_of_built branched_built {}))
  obtain ⟨_, htransforms⟩ := hquiescent branchedTable _ (Prod.ext rfl hok)
  exact ⟨hok, by decide +kernel, htransforms [2, 0, 1, 2] (by decide)⟩

end SweepPlan

end LayerQuant
