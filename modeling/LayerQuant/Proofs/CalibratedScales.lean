import Mathlib
import LayerQuant.Proofs.LaterScales
import LayerQuant.Proofs.Quantization
import LayerQuant.Proofs.SeededRanges

/-!
# Calibrated ranges bound scales

A layer that chooses its own output scale follows its aggregated range, and the range that
calibration saw at its output becomes part of that range when a reader of the layer is visited. So
the calibrated range of a layer that is read bounds its scale (`calibrated_bounds_output`); that of
a layer that nothing reads does not.
-/

namespace LayerQuant

open Binary

namespace EdgeTable

variable {table : EdgeTable} {range : Single}

/-- The ranges of the outputs that a closed table passes on reach the aggregated ranges. -/
theorem Closed.output_reaches {alters : Layer → Bool} {network : Network} {reader : Layer}
    {id : Nat} (hclosed : table.Closed alters network) (hreader : reader ∈ network.layers.toList)
    (hid : id ∈ reader.predecessors) (hrange : (table.get id).output.range? = some range)
    (hpos : .zero < range) : (table.get id).output.Reaches range := by
  obtain ⟨whole, hknown, hle⟩ := Edge.range_le_known hrange (number_of_lt_right hpos)
  have hsome : ∃ p ∈ reader.predecessors, (table.get p).output.knownRange?.isSome :=
    ⟨id, hid, by simp [hknown]⟩
  obtain ⟨largest, hlargest⟩ := exists_joins alters hsome
  have hwhole : whole ≤ largest :=
    hlargest.isLargest.le (mem_meeting.2 (Or.inl ⟨id, hid, hknown⟩)) (number_of_le_right hle)
  have hreaches := le_trans' hle hwhole
  have hclosedAt := hclosed reader hreader hsome largest hlargest.isLargest
  exact (hclosedAt.producers (lt_of_lt_of_le' hpos hreaches) id hid).reaches.mono hreaches

end EdgeTable

namespace Staged

variable {config : Config} {network : Network} {scales : List Single} {store : Store}
  {quantized : Quantized} {layer : Layer} {id : Nat} {range : Single}
  (staged : Staged config network scales (some store) quantized)

include staged

/-- The ranges that go into the sweep have spread. -/
theorem ranged_closed (hbuilt : network.Built) :
    staged.ranged.Closed config.propagator.alters network := by
  obtain ⟨_, _, hcalibrate⟩ := staged.calibrate_eq rfl
  obtain ⟨_, _, hpropagate⟩ := EdgeTable.calibrate_eq_ok hcalibrate
  have hclosed := Propagator.propagate_closed hbuilt (congrArg Prod.snd hpropagate)
  rwa [hpropagate] at hclosed

/-- A layer other than a graph input goes into the sweep with its calibrated range. -/
theorem ranged_range? (hbuilt : network.Built) (hlayer : network.layer? id = some layer)
    (hkind : layer.kind ≠ .input) (hrange : store.outputRange? layer.name = some range) :
    (staged.ranged.get id).output.range? = some range := by
  have hformed := hbuilt.wellFormed
  obtain ⟨_, _, hcalibrate⟩ := staged.calibrate_eq rfl
  obtain ⟨_, _, hpropagate⟩ := EdgeTable.calibrate_eq_ok hcalibrate
  have hseed : (((staged.given.seed network store).1).get id).output.range? = some range := by
    rw [← hformed.id_eq hlayer,
      EdgeTable.seed_of_mem hformed staged.given_size.ge (Network.layer?_mem hlayer), hrange]
    rfl
  have hundeclared : id ∉ network.inputs := by
    intro hdeclared
    obtain ⟨declared, hsome, hinput⟩ := hformed.declared hdeclared
    obtain rfl := Option.some.inj (hsome.symm.trans hlayer)
    exact hkind hinput
  have hnormalized := EdgeTable.normalizeIds_entry (·.output.range?) config.maxInputFeature
    network.inputs (staged.given.seed network store).1 id fun hdeclared =>
      absurd hdeclared hundeclared
  have hrest := config.propagator.propagate_rest network
    ((staged.given.seed network store).1.normalizeInputs network config.maxInputFeature).1 id
  rw [hpropagate] at hrest
  exact (LayerEdges.output_range_of_rest hrest).trans (hnormalized.trans hseed)

/-- The sweep and the conversion leave the range of an output alone. -/
theorem output_range?_eq (hbuilt : network.Built) (id : Nat) :
    (quantized.table.get id).output.range? = (staged.ranged.get id).output.range? := by
  obtain ⟨hplan, _, hstart, hreaches, _⟩ := staged.reaches hbuilt
  rw [staged.output_range?]
  exact SweepPlan.Reaches.entry (·.output.range?) hplan.toOrdered
    (fun _ _ => LayerEdges.setScales_output_range?) hstart.toConsistent hreaches id

/-- The sweep leaves the aggregated range of an output alone. -/
theorem final_aggregated?_eq (hbuilt : network.Built) (id : Nat) :
    (staged.final.table.get id).output.aggregated? =
      (staged.ranged.get id).output.aggregated? := by
  obtain ⟨hplan, _, hstart, hreaches, _⟩ := staged.reaches hbuilt
  exact SweepPlan.Reaches.entry (·.output.aggregated?) hplan.toOrdered
    (fun _ _ => LayerEdges.setScales_output_aggregated?) hstart.toConsistent hreaches id

/-- The sweep ends with a range-derived scale for a layer that is read, and that scale is at most
the one of its calibrated range. -/
theorem rangeScale?_le (hbuilt : network.Built)
    (hrange : (staged.ranged.get id).output.range? = some range)
    (hmin : staged.plan.rule.minRange < range)
    (hread : ∃ reader ∈ network.layers.toList, id ∈ reader.predecessors) :
    ∃ scale, staged.plan.rangeScale? staged.final id = some scale ∧
      scale ≤ staged.plan.rule.scaleFor range := by
  obtain ⟨hplan, _⟩ := staged.reaches hbuilt
  obtain ⟨reader, hreader, hid⟩ := hread
  have hpos := hplan.rule.zero_lt hmin
  obtain ⟨aggregated, haggregated, hle⟩ :=
    (staged.ranged_closed hbuilt).output_reaches hreader hid hrange hpos
  rw [← staged.final_aggregated?_eq hbuilt] at haggregated
  exact ⟨_, Edge.rangeScale?_eq_some.2
    ⟨aggregated, haggregated, lt_of_lt_of_le' hmin hle, rfl⟩, hplan.rule.scaleFor_anti hpos hle⟩

end Staged

/-- A layer that chooses its own output scale and is read by some layer keeps the range that
calibration saw at its output, and its output scale is at most the scale of that range. The
exception is a layer whose input scale times its weight scale is not a number. -/
theorem calibrated_bounds_output {quantizer : Quantizer} {network : Network}
    {scales : List Single} {store : Store} {quantized : Quantized} {plan : SweepPlan} {id : Nat}
    {layer : Layer} {range : Single} (hbuilt : network.Built)
    (h : (quantizer.quantizeWithStats network scales (some store)).2 = .ok quantized)
    (hplan : quantizer.config.sweepPlan network = .ok plan)
    (hlayer : network.layer? id = some layer) (hkind : layer.kind.canRescale = true)
    (hrange : store.outputRange? layer.name = some range)
    (hmin : quantizer.config.scaleRule.minRange < range)
    (hread : ∃ reader ∈ network.layers.toList, id ∈ reader.predecessors) :
    (quantized.table.get id).output.range? = some range ∧
      ((quantized.table.get id).output.scale ≤ quantizer.config.scaleRule.scaleFor range ∨
        layer.kind.hasWeights = true ∧
          ((quantized.table.get id).input.scale * plan.weightScale layer).isNaN = true) := by
  obtain ⟨staged⟩ := staged_of_quantizeWithStats h
  obtain rfl := Except.ok.inj (staged.plan_eq.symm.trans hplan)
  obtain ⟨hstandard, hnetwork, _, _, hsound⟩ := staged.reaches hbuilt
  have hinput : layer.kind ≠ .input := by
    intro heq
    simp [heq, Kind.canRescale, Kind.altersRange] at hkind
  have hranged := staged.ranged_range? hbuilt hlayer hinput hrange
  refine ⟨(staged.output_range?_eq hbuilt id).trans hranged, ?_⟩
  rw [← staged.rule_eq hbuilt] at hmin ⊢
  obtain ⟨scale, hscale, hle⟩ := staged.rangeScale?_le hbuilt hranged hmin hread
  rw [← hnetwork] at hlayer
  have hsettled := hsound.settled hlayer (Network.lt_size hlayer)
  have hid := hstandard.formed.id_eq hlayer
  have hinputScale := hsettled.input_eq
  have houtputScale := hsettled.output_eq
  rw [hid] at hinputScale houtputScale
  rw [← hid] at hscale
  rw [staged.output_scale, staged.input_scale, hinputScale]
  show staged.final.outputScale id ≤ _ ∨ _
  rw [houtputScale]
  obtain hbelow | ⟨hweights, hproduct⟩ :=
    SweepPlan.output_le_of_canRescale hkind hscale
      (Edge.rangeScale?_number hstandard.rule hscale)
  · exact Or.inl (le_trans' hbelow hle)
  · rw [SweepPlan.scalesFor_of_weighted hweights]
    exact Or.inr ⟨hweights, hproduct⟩

/-- An input, an activation, an affine layer with a tiny weight, and the sum of the input and the
affine layer. -/
def skip : Network where
  layers := #[{ id := 0, name := "in", kind := .input },
    { id := 1, name := "activation", kind := .activation, inputs := [0] },
    { id := 2, name := "affine", kind := .affine, inputs := [1],
      weights := some [.ofDecimal .single false 1 (-36)] },
    { id := 3, name := "sum", kind := .eltwise, inputs := [0, 2] }]
  inputs := [0]

theorem skip_built : skip.Built := by
  have hinput : Network.addInput {} "in" =
      .ok (⟨#[{ id := 0, name := "in", kind := .input }], [0]⟩, 0) := by cbv
  have hactivation : Network.addLayer ⟨#[{ id := 0, name := "in", kind := .input }], [0]⟩
      "activation" .activation [0] = .ok (⟨#[{ id := 0, name := "in", kind := .input },
        { id := 1, name := "activation", kind := .activation, inputs := [0] }], [0]⟩, 1) := by cbv
  have haffine : Network.addLayer ⟨#[{ id := 0, name := "in", kind := .input },
      { id := 1, name := "activation", kind := .activation, inputs := [0] }], [0]⟩
      "affine" .affine [1] = .ok (⟨#[{ id := 0, name := "in", kind := .input },
        { id := 1, name := "activation", kind := .activation, inputs := [0] },
        { id := 2, name := "affine", kind := .affine, inputs := [1] }], [0]⟩, 2) := by cbv
  have hsum : Network.addLayer ⟨#[{ id := 0, name := "in", kind := .input },
      { id := 1, name := "activation", kind := .activation, inputs := [0] },
      { id := 2, name := "affine", kind := .affine, inputs := [1] }], [0]⟩ "sum" .eltwise [0, 2] =
      .ok (⟨#[{ id := 0, name := "in", kind := .input },
        { id := 1, name := "activation", kind := .activation, inputs := [0] },
        { id := 2, name := "affine", kind := .affine, inputs := [1] },
        { id := 3, name := "sum", kind := .eltwise, inputs := [0, 2] }], [0]⟩, 3) := by cbv
  have hweights : Network.setWeights ⟨#[{ id := 0, name := "in", kind := .input },
      { id := 1, name := "activation", kind := .activation, inputs := [0] },
      { id := 2, name := "affine", kind := .affine, inputs := [1] },
      { id := 3, name := "sum", kind := .eltwise, inputs := [0, 2] }], [0]⟩ 2
      [.ofDecimal .single false 1 (-36)] none = .ok skip := by rfl
  exact .setWeights (.addLayer (.addLayer (.addLayer (.addInput .empty hinput) hactivation)
    haffine) hsum) hweights

/-- Calibrated outputs of `skip`: at most `activation` at the activation, one at the affine layer,
and a million at the sum. -/
def skipStore (activation : Single) : Store where
  layers := #[{ output := { name := "activation", minimum := .zero, maximum := activation } },
    { output := { name := "affine", minimum := .zero, maximum := .ofNat .single 1 } },
    { output := { name := "sum", minimum := .zero, maximum := .ofNat .single 1000000 } }]

/-- The affine layer reads the activation, so the range of the activation bounds its scale. -/
theorem skip_activation_bounded : ∃ quantized,
    (Quantizer.quantizeWithStats { config := {} } skip [.ofNat .single 1]
      (some (skipStore (.ofNat .single 2)))).2 = .ok quantized ∧
    (quantized.table.get 1).output.scale ≤ ScaleRule.scaleFor {} (.ofNat .single 2) := by
  have hok : ((Quantizer.quantizeWithStats { config := {} } skip [.ofNat .single 1]
      (some (skipStore (.ofNat .single 2)))).2.toOption.isSome) = true := by
    simp only [Quantizer.quantizeWithStats, Config.quantize, Quantizer.noRevision,
      Config.quantizeFinal, Config.sweepPlan, skip_built.wellFormed.topologicalOrder_eq]
    decide +kernel
  obtain ⟨plan, hplan⟩ : ∃ plan, Config.sweepPlan {} skip = .ok plan := by
    rw [Config.sweepPlan, skip_built.wellFormed.topologicalOrder_eq]
    exact ⟨_, rfl⟩
  have hlayer : skip.layer? 1 =
      some { id := 1, name := "activation", kind := .activation, inputs := [0] } := rfl
  have hrange : (skipStore (.ofNat .single 2)).outputRange? "activation" =
      some (.ofNat .single 2) := by decide +kernel
  have hread : ∃ reader ∈ skip.layers.toList, 1 ∈ reader.predecessors := by decide +kernel
  cases hresult : (Quantizer.quantizeWithStats { config := {} } skip [.ofNat .single 1]
      (some (skipStore (.ofNat .single 2)))).2 with
  | error error => simp [hresult, Except.toOption] at hok
  | ok quantized =>
      obtain ⟨_, hbounded⟩ := calibrated_bounds_output skip_built hresult hplan hlayer rfl
        hrange (by decide +kernel) hread
      exact ⟨quantized, rfl, hbounded.resolve_right fun hweights => by cases hweights.1⟩

/-- A calibrated range need not bound the scale. Nothing reads the sum, so its range goes nowhere;
the affine layer is read, but a zero arrives there and meets an infinite weight scale. -/
theorem skip_exceeds_calibrated :
    skip.Built ∧ Config.validate {} = .ok () ∧ .zero < Binary.ofNat .single 1 ∧
      (Binary.ofNat .single 1).isFinite = true ∧ ∃ quantized,
        (Quantizer.quantizeWithStats { config := {} } skip [.ofNat .single 1]
          (some (skipStore (.ofDecimal .single false 3 38)))).2 = .ok quantized ∧
        ∀ id ∈ [2, 3], ∃ layer range, skip.layer? id = some layer ∧
          layer.kind.canRescale = true ∧
          (skipStore (.ofDecimal .single false 3 38)).outputRange? layer.name = some range ∧
          (quantized.table.get id).output.range? = some range ∧
          ScaleRule.minRange {} < range ∧
          ¬ (quantized.table.get id).output.scale ≤ ScaleRule.scaleFor {} range := by
  have hranges : ((Quantizer.quantizeWithStats { config := {} } skip [.ofNat .single 1]
      (some (skipStore (.ofDecimal .single false 3 38)))).2.toOption.map fun quantized =>
        ((quantized.table.get 2).output.range?, (quantized.table.get 3).output.range?)) =
      some (some (.ofNat .single 1), some (.ofNat .single 1000000)) := by
    simp only [Quantizer.quantizeWithStats, Config.quantize, Quantizer.noRevision,
      Config.quantizeFinal, Config.sweepPlan, skip_built.wellFormed.topologicalOrder_eq]
    decide +kernel
  have hbounded : ((Quantizer.quantizeWithStats { config := {} } skip [.ofNat .single 1]
      (some (skipStore (.ofDecimal .single false 3 38)))).2.toOption.map fun quantized =>
        (decide ((quantized.table.get 2).output.scale ≤
            ScaleRule.scaleFor {} (.ofNat .single 1)),
          decide ((quantized.table.get 3).output.scale ≤
            ScaleRule.scaleFor {} (.ofNat .single 1000000)))) = some (false, false) := by
    simp only [Quantizer.quantizeWithStats, Config.quantize, Quantizer.noRevision,
      Config.quantizeFinal, Config.sweepPlan, skip_built.wellFormed.topologicalOrder_eq]
    decide +kernel
  refine ⟨skip_built, by decide +kernel, by decide +kernel, by decide +kernel, ?_⟩
  cases hresult : (Quantizer.quantizeWithStats { config := {} } skip [.ofNat .single 1]
      (some (skipStore (.ofDecimal .single false 3 38)))).2 with
  | error error => simp [hresult, Except.toOption] at hranges
  | ok quantized =>
      simp only [hresult, Except.toOption, Option.map_some, Option.some.injEq, Prod.mk.injEq,
        decide_eq_false_iff_not] at hranges hbounded
      refine ⟨quantized, rfl, fun id hid => ?_⟩
      obtain rfl | rfl : id = 2 ∨ id = 3 := by simpa using hid
      · exact ⟨_, .ofNat .single 1, rfl, rfl, by decide +kernel, hranges.1, by decide +kernel,
          hbounded.1⟩
      · exact ⟨_, .ofNat .single 1000000, rfl, rfl, by decide +kernel, hranges.2,
          by decide +kernel, hbounded.2⟩

end LayerQuant
