import Mathlib
import LayerQuant.Proofs.LaterScales
import LayerQuant.Proofs.NetworkEdits
import LayerQuant.Proofs.ScaleFloor
import LayerQuant.Proofs.SweepBudget

/-!
# Scales within their bounds

A run that succeeds leaves every layer with scales that its cap, its range and its inputs allow
(`Respects`), and changes nothing but scales, of nothing but the layers of the network
(`run_respects_bounds`). Caps are placed long after a layer is first derived, so the bounds are read
off the settled layers at the end. The settings need not be usable; what has to be a number is a
matter of two scales (`DerivesNumbers`).
-/

namespace LayerQuant

/-- The entry without its scales: the levels, the extrema and the ranges of its tensors. -/
def LayerEdges.withoutScales (edges : LayerEdges) : LayerEdges :=
  { edges with
    input := { edges.input with scale? := none }
    output := { edges.output with scale? := none }
    weights := { edges.weights with scale? := none }
    bias := { edges.bias with scale? := none } }

@[simp] theorem LayerEdges.withoutScales_setScales (edges : LayerEdges) (scales : DerivedScales) :
    (edges.setScales scales).withoutScales = edges.withoutScales := by
  unfold setScales
  cases scales.weights? <;> rfl

namespace SweepPlan

open Binary

variable {plan : SweepPlan} {sweep final : Sweep} {layer : Layer} {scale : Single} {k id : Nat}

/-- The range-derived scales of the layers that choose their own, and the bias scales of the
weighted layers, are numbers. Of all scales that a sweep computes no others have to be. -/
structure DerivesNumbers (plan : SweepPlan) (sweep : Sweep) : Prop where
  ranged : ∀ {id layer scale}, plan.network.layer? id = some layer →
    layer.kind.canRescale = true → plan.rangeScale? sweep id = some scale → scale.isNaN = false
  biases : ∀ {id layer}, plan.network.layer? id = some layer → layer.kind.hasWeights = true →
    (sweep.table.get id).bias.scale.isNaN = false

/-- The scales of the layer are those that its cap, its range and its inputs allow. -/
structure Respects (plan : SweepPlan) (id : Nat) (layer : Layer) (sweep : Sweep) : Prop where
  cap : layer.kind.canRescale = true → ∀ cap, sweep.cap? id = some cap →
    sweep.outputScale id ≤ cap
  range : layer.kind.canRescale = true → ∀ range,
    (sweep.table.get id).output.aggregated? = some range → plan.rule.minRange < range →
      sweep.outputScale id ≤ plan.rule.scaleFor range
  passed : layer.isInput = false → layer.kind.canRescale = false →
    (sweep.table.get id).input.scale = sweep.outputScale id ∧
      IsSmallest (sweep.outputScale id) (layer.inputs.map sweep.outputScale)
  bias : layer.kind.hasWeights = true →
    (sweep.table.get id).bias.scale.sameNumber (sweep.outputScale id) = true
  given : layer.kind = .input → sweep.outputScale id = (sweep.table.get id).input.scale

/-! ## Caps are numbers -/

/-- The caps that a run places are numbers. -/
theorem Reaches.isNaN_cap (hplan : plan.Ordered) (h : plan.Consistent k sweep)
    (hcaps : ∀ {id cap}, sweep.cap? id = some cap → cap.isNaN = false)
    (hreaches : plan.Reaches sweep final) {cap : Single} (hcap : final.cap? id = some cap) :
    cap.isNaN = false := by
  induction hreaches generalizing id cap with
  | refl => exact hcaps hcap
  | tail hreaches hstep ih =>
      obtain ⟨k', hconsistent⟩ := h.reaches hplan hreaches
      rcases hconsistent.step_cap hplan hstep hcap with hold | ⟨_, _, hnew⟩
      · exact ih hold
      · exact hnew.1

/-- A number that is at most the cap of a layer stays the number it is. -/
theorem sameNumber_capped (hle : ∀ {cap}, sweep.cap? id = some cap → scale ≤ cap)
    (hnumber : scale.isNaN = false) : scale.sameNumber (sweep.capped id scale) = true := by
  have hbelow : sweep.capped id scale ≤ scale := capped_le scale hnumber
  exact sameNumber_iff.2 ⟨capped_of (p := (scale ≤ ·)) (le_refl_of_number hnumber) hle, hbelow⟩

/-! ## Settled layers -/

/-- A layer that takes over the scale of its inputs, and has some, takes over the smallest one. -/
theorem isSmallest_inputOf (plan : SweepPlan) (sweep : Sweep) (hfed : layer.inputs ≠ []) :
    IsSmallest (plan.inputOf layer sweep) (layer.inputs.map sweep.outputScale) := by
  unfold inputOf
  cases hleast : smallest? (layer.inputs.map sweep.outputScale) with
  | none => exact absurd (List.map_eq_nil_iff.1 (smallest?_eq_none.1 hleast)) hfed
  | some least => exact isSmallest_of_smallest? hleast

/-- A settled layer respects its bounds. -/
theorem Settled.respects (h : plan.Settled layer sweep) (hlawful : layer.Lawful)
    (hlayer : plan.network.layer? layer.id = some layer)
    (hnumbers : plan.DerivesNumbers sweep) (hfollowed : plan.CapsFollowed sweep)
    (hcaps : ∀ {cap}, sweep.cap? layer.id = some cap → cap.isNaN = false) :
    plan.Respects layer.id layer sweep := by
  have hbias : layer.kind.hasWeights = true →
      (sweep.table.get layer.id).bias.scale =
          (plan.limited layer (plan.inputOf layer sweep) sweep).2 ∧
        (plan.limited layer (plan.inputOf layer sweep) sweep).2.isNaN = false := by
    intro hweights
    have heq := h.bias_eq hweights
    have hnumber := hnumbers.biases hlayer hweights
    rw [heq] at hnumber
    exact ⟨heq, hnumber⟩
  refine ⟨fun hkind cap hcap => ?_, fun hkind range hrange hmin => ?_, fun hinput hkind => ?_,
    fun hweights => ?_, fun hinput => ?_⟩
  · have hother : layer.kind ≠ .input := by
      intro heq
      simp [heq, Kind.canRescale, Kind.altersRange] at hkind
    obtain ⟨uncapped, heq⟩ := plan.exists_capped sweep hother
    rw [h.output_eq, heq]
    exact capped_le_cap hcap (hcaps hcap) uncapped
  · have hscale : plan.rangeScale? sweep layer.id = some (plan.rule.scaleFor range) :=
      Edge.rangeScale?_eq_some.2 ⟨range, hrange, hmin, rfl⟩
    rw [h.output_eq]
    rcases output_le_of_canRescale hkind hscale (hnumbers.ranged hlayer hkind hscale) with
      hle | ⟨hweights, hproduct⟩
    · exact hle
    · -- The bias scale is a number, and it is at most the product that could fail to be one.
      have hunder := (limited_le plan layer sweep (hbias hweights).2).1
      simp [number_of_le_right hunder] at hproduct
  · have hpasses : layer.stopsCaps = false := by simp [Layer.stopsCaps, hinput, hkind]
    have hloose : sweep.cap? layer.id = none := by
      rw [Option.eq_none_iff_forall_ne_some]
      intro cap hcap
      obtain ⟨capped, hcapped, hrescales⟩ := hfollowed hcap
      obtain rfl := Option.some.inj (hlayer.symm.trans hcapped)
      simp [hkind] at hrescales
    have houtput : sweep.outputScale layer.id = plan.inputOf layer sweep := by
      rw [h.output_eq, scalesFor_of_passes hpasses]
      simp [Sweep.capped, hloose]
    have hmemory : layer.kind ≠ .memory := by
      intro heq
      simp [heq, Kind.canRescale] at hkind
    have hplain : layer.kind.hasWeights = false := by
      cases hlayer : layer.kind <;> simp_all [Kind.canRescale, Kind.altersRange, Kind.hasWeights]
    have hother : layer.kind ≠ .input := by simpa [Layer.isInput] using hinput
    rw [houtput, h.input_eq, scalesFor_of_plain hother hmemory hplain]
    exact ⟨rfl, plan.isSmallest_inputOf sweep (hlawful.fed hother hmemory)⟩
  · obtain ⟨heq, hnumber⟩ := hbias hweights
    rw [h.output_eq, scalesFor_of_weighted hweights, heq]
    refine sameNumber_capped (fun hcap => ?_) hnumber
    exact limited_le_limit hnumber (Or.inr hcap) (hcaps hcap)
  · rw [h.output_eq, h.input_eq]
    unfold scalesFor
    simp only [hinput]

/-- A run that succeeds leaves every layer with scales that its cap, its range and its inputs allow.
It adds no entry to the table, changes nothing but scales, and nothing at all in the entries beyond
the layers of the network. -/
theorem run_respects_bounds {config : Config} {network : Network} {table : EdgeTable}
    (hbuilt : network.Built) (hplan : config.sweepPlan network = .ok plan)
    (hrun : plan.run (.start network table) = (final, .ok ()))
    (hnumbers : plan.DerivesNumbers final) :
    (∀ {id layer}, network.layer? id = some layer → plan.Respects id layer final) ∧
      final.table.size = table.size ∧
      (∀ id, (final.table.get id).withoutScales = (table.get id).withoutScales) ∧
      ∀ id, network.size ≤ id → final.table.get id = table.get id := by
  obtain ⟨hordered, heq⟩ := sweepPlan_eq_ok hbuilt hplan
  obtain rfl : plan.network = network := congrArg SweepPlan.network heq
  obtain ⟨hsize, hreaches, hconsistent, _⟩ := run_consistent hordered hrun
  have hstart : plan.Consistent 0 (.start plan.network table) := .start hsize
  have hnone := Sweep.cap?_start plan.network table
  have hfollowed : plan.CapsFollowed final := hreaches.capsFollowed fun hcap => by
    simp [hnone] at hcap
  obtain ⟨hkept, hbeyond⟩ := hreaches.beyond hordered hstart
  refine ⟨fun {id layer} hlayer => ?_, hkept,
    hreaches.entry _ hordered LayerEdges.withoutScales_setScales hstart, hbeyond⟩
  have hsettled := hconsistent.settled hlayer (Network.lt_size hlayer)
  obtain rfl := hordered.formed.id_eq hlayer
  exact hsettled.respects (hbuilt.lawful.layers hlayer) hlayer hnumbers hfollowed
    fun hcap => hreaches.isNaN_cap hordered hstart (fun hcap => by simp [hnone] at hcap) hcap

/-- The weighted layer caps the activation in front of it, which costs one restart. In the end the
activation keeps to the cap, and the weighted layer to the range of its output. -/
theorem stacked_respects_bounds : ∃ plan final cap,
    Config.sweepPlan {} stacked = .ok plan ∧
      plan.run (.start stacked stackedTable) = (final, .ok ()) ∧ final.restarts = 1 ∧
      final.cap? 1 = some cap ∧ final.outputScale 1 ≤ cap ∧
      final.outputScale 2 ≤ plan.rule.scaleFor (.ofNat .single 1000) := by
  let plan : SweepPlan := { stackedPlan with maxRestarts := 1024 }
  let final := (plan.run (.start stacked stackedTable)).1
  have hplan : Config.sweepPlan {} stacked = .ok plan := sweepPlan_of_built stacked_built {}
  have hrun : plan.run (.start stacked stackedTable) = (final, .ok ()) :=
    Prod.ext rfl (by decide +kernel)
  have hnumbers : plan.DerivesNumbers final := by
    refine ⟨fun {id layer scale} hlayer _ hscale => ?_, fun {id layer} hlayer _ => ?_⟩
    · have hall : ∀ id < 3, (plan.rangeScale? final id).all (!·.isNaN) = true := by decide +kernel
      have hnumber := hall id (Network.lt_size hlayer)
      rw [hscale] at hnumber
      simpa using hnumber
    · have hall : ∀ id < 3, (final.table.get id).bias.scale.isNaN = false := by decide +kernel
      exact hall id (Network.lt_size hlayer)
  obtain ⟨hrespects, _⟩ := run_respects_bounds stacked_built hplan hrun hnumbers
  have hcapped : (final.cap? 1).isSome = true := by decide +kernel
  obtain ⟨cap, hcap⟩ := Option.isSome_iff_exists.1 hcapped
  have hactive : stacked.layer? 1 = some
      { id := 1, name := "active", kind := .activation, inputs := [0] } := rfl
  have hdense : stacked.layer? 2 = some
      { id := 2, name := "dense", kind := .affine, inputs := [1],
        weights := some [.ofRatio .single false 1 2] } := rfl
  exact ⟨plan, final, cap, hplan, hrun, by decide +kernel, hcap,
    (hrespects hactive).cap rfl cap hcap,
    (hrespects hdense).range rfl _ (by decide +kernel) (by decide +kernel)⟩

end SweepPlan

end LayerQuant
