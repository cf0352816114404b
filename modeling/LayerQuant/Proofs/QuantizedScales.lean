import Mathlib
import LayerQuant.Proofs.QuantizedLayers
import LayerQuant.Proofs.ScaleCeiling

/-!
# The scales that a quantization hands out

No scale of a quantized network is negative. That all of them are positive and finite is a matter of
the numbers that went in: `quantized_usable` says exactly when they are, and which tables a sweep can
start from so that they are (for these, see also `SweepPlan.Bounded.inRange`). A finite weight alone
can be too small for it (`weighted_tiny_not_usable`).
-/

namespace LayerQuant

/-- All scales that a table has for the layers of a network are usable. -/
def Network.UsableScales (network : Network) (table : EdgeTable) : Prop :=
  ∀ id layer, network.layer? id = some layer → (table.get id).HasUsableScales layer.kind

namespace Staged

variable {config : Config} {network : Network} {scales : List Single} {store : Option Store}
  {quantized : Quantized}

/-- The result of a quantization has usable scales where its sweep has left them. -/
theorem hasUsableScales_iff (staged : Staged config network scales store quantized) (id : Nat)
    (kind : Kind) : (quantized.table.get id).HasUsableScales kind ↔
      (staged.final.table.get id).HasUsableScales kind := by
  have hscales : ∀ edges : LayerEdges, edges.HasUsableScales kind ↔
      edges.input.scale.IsUsable ∧ edges.output.scale.IsUsable ∧
        (kind.hasWeights = true → edges.weights.scale.IsUsable ∧ edges.bias.scale.IsUsable) :=
    fun edges => ⟨fun h => ⟨h.input, h.output, h.weighted⟩, fun h => ⟨h.1, h.2.1, h.2.2⟩⟩
  rw [hscales, hscales, staged.input_scale, staged.output_scale, staged.weights_scale,
    staged.bias_scale]

/-- The result of a quantization has unsigned scales where its sweep has left them. -/
theorem hasUnsignedScales (staged : Staged config network scales store quantized) {id : Nat}
    {kind : Kind} (h : (staged.final.table.get id).HasUnsignedScales kind) :
    (quantized.table.get id).HasUnsignedScales kind := by
  obtain ⟨hinput, houtput, hweighted⟩ := h
  rw [← staged.input_scale] at hinput
  rw [← staged.output_scale] at houtput
  rw [← staged.weights_scale, ← staged.bias_scale] at hweighted
  exact ⟨hinput, houtput, hweighted⟩

theorem usableSources_iff (staged : Staged config network scales store quantized)
    (precision : Precision) (rule : ScaleRule) :
    UsableSources network precision rule quantized.table ↔
      UsableSources network precision rule staged.final.table := by
  have haggregated : ∀ id, (quantized.table.get id).output.aggregated? =
      (staged.final.table.get id).output.aggregated? :=
    staged.entry (·.output.aggregated?) fun _ _ => by simp
  constructor
  · rintro ⟨hweighted, hranged⟩
    simp only [staged.input_scale, staged.bias_scale, haggregated] at hweighted hranged
    exact ⟨hweighted, hranged⟩
  · rintro ⟨hweighted, hranged⟩
    simp only [← staged.input_scale, ← staged.bias_scale, ← haggregated] at hweighted hranged
    exact ⟨hweighted, hranged⟩

/-- The sweep has ended within its budget of restarts. -/
theorem ended (staged : Staged config network scales store quantized) (hbuilt : network.Built) :
    quantized.report.restarts ≤ config.maxRestarts ∧
      ∀ {restarts}, quantized.report.restarts ≤ restarts →
        staged.plan.Ended staged.ranged restarts staged.final := by
  obtain ⟨hordered, hplan⟩ := SweepPlan.sweepPlan_eq_ok hbuilt staged.plan_eq
  have hnetwork : staged.plan.network = network := by rw [hplan]
  have hbudget : staged.plan.maxRestarts = config.maxRestarts := by rw [hplan]
  have hrun : staged.plan.run (.start staged.plan.network staged.ranged) =
      (staged.final, .ok ()) := by
    rw [hnetwork]
    exact staged.run_eq
  obtain ⟨hsize, hreaches, hconsistent, _⟩ := SweepPlan.run_consistent hordered hrun
  have hends := SweepPlan.run_ends hordered hsize
  rw [hrun] at hends
  rw [staged.restarts_eq, ← hbudget]
  cases hends with
  | finished _ _ _ hle => exact ⟨hle, fun hrestarts => ⟨hsize, hreaches, hconsistent, hrestarts⟩⟩

end Staged

open Quantizer in
/-- No scale of a quantized network is negative, and those of its inputs are positive and finite.
All of them are positive and finite exactly if the sources are usable: the weights of every weighted
layer fit the scale at which its inputs arrive, and no range that a layer chooses its scale by
becomes infinite when it is widened. And they are whenever the table that the sweep starts from is in
range, for the restarts that were needed or for more, as many as are allowed at most. -/
theorem quantized_usable {σ : Type} {quantizer : Quantizer} {request : Request σ}
    {folder : Folder} {state : σ} {quantized : Quantized} (hbuilt : request.network.Built)
    (hrevise : request.revision.KeepsBuilt)
    (h : (request.answer folder quantizer state).1 = .ok quantized) :
    (∀ {id layer}, quantized.network.layer? id = some layer →
      (quantized.table.get id).HasUnsignedScales layer.kind ∧
        (layer.kind = .input → (quantized.table.get id).HasUsableScales layer.kind)) ∧
    (quantized.network.UsableScales quantized.table ↔
      UsableSources quantized.network quantizer.config.weightsPrecision
        quantizer.config.scaleRule quantized.table) ∧
    ∃ plan table, quantizer.config.sweepPlan quantized.network = .ok plan ∧
      quantizer.config.rangedTable quantized.network request.scales
        (request.calibration.store folder { config := quantizer.config }) = .ok table ∧
      quantized.report.restarts ≤ quantizer.config.maxRestarts ∧
      ∀ {restarts floor factor}, quantized.report.restarts ≤ restarts →
        plan.InRange table restarts floor factor →
        quantized.network.UsableScales quantized.table := by
  obtain ⟨hfinal, staged, _⟩ := request.staged hbuilt hrevise h
  obtain ⟨hplan, hnetwork, hstart, hreaches, hsound⟩ := staged.reaches hfinal
  obtain ⟨hbudget, hended⟩ := staged.ended hfinal
  have hprecision : staged.plan.precision = quantizer.config.weightsPrecision := by
    rw [(SweepPlan.sweepPlan_eq_ok hfinal staged.plan_eq).2]
  have hiff : quantized.network.UsableScales quantized.table ↔
      UsableSources quantized.network quantizer.config.weightsPrecision
        quantizer.config.scaleRule staged.final.table := by
    have hscales := SweepPlan.usable_iff hplan hstart
      (Sweep.cap?_start staged.plan.network staged.ranged) hreaches hsound
    rw [hnetwork, hprecision, staged.rule_eq hfinal] at hscales
    unfold Network.UsableScales
    simp only [staged.hasUsableScales_iff]
    exact hscales
  refine ⟨fun {id layer} hlayer => ?_, ?_, staged.plan, staged.ranged, staged.plan_eq,
    staged.rangedTable_eq, hbudget, fun hrestarts hrange => ?_⟩
  · rw [← hnetwork] at hlayer
    obtain ⟨hunsigned, hgiven⟩ := hsound.hasUnsignedScales hplan hlayer
    exact ⟨staged.hasUnsignedScales hunsigned,
      fun hkind => (staged.hasUsableScales_iff id _).2 (hgiven hkind)⟩
  · rw [hiff, staged.usableSources_iff]
  · have hsources := hrange.usableSources hplan (hended hrestarts) hsound
    rw [hnetwork, hprecision, staged.rule_eq hfinal] at hsources
    exact hiff.2 hsources

/-- The plan for an input and an affine layer with one weight. -/
def weightedPlan (weight : Single) : SweepPlan where
  network := weighted weight
  order := [0, 1]
  rule := {}
  defaultScale := .ofNat .single 1
  precision := .int16
  maxRestarts := 1024

/-- The table in which the input of these layers has a scale. -/
def givenTable (scale : Single) : EdgeTable where
  layers := #[{ input := { scale? := some scale } }, {}]

/-- For a weight of one, whose scale is the target, the scales lie between one and the product of the
target and the input scale. -/
theorem weighted_one_bounded : (weightedPlan (.ofNat .single 1)).Bounded
    (givenTable (.ofNat .single 4)) 0 (.ofNat .single 1) (.ofNat .single 1)
    (.ofNat .single 4) (.ofNat .single 16384) := by
  have hweighted : ∀ {id layer}, (weighted (.ofNat .single 1)).layer? id = some layer →
      layer.kind.hasWeights = true → id = 1 := by
    intro id layer hlayer hkind
    rcases id with _ | _ | id
    · obtain rfl := Option.some.inj hlayer
      cases hkind
    · rfl
    · simp [weighted, Network.layer?] at hlayer
  refine ⟨⟨by decide +kernel, by decide +kernel, by decide +kernel, by decide +kernel,
    fun hlayer hkind => ?_⟩, by decide +kernel, by decide +kernel, by decide +kernel,
    fun hlayer hkind => ?_, by decide +kernel, by decide +kernel, by decide +kernel⟩
  all_goals
    obtain rfl := hweighted hlayer hkind
    obtain rfl := Option.some.inj hlayer
    decide +kernel

/-- A weight of one leaves all scales usable. -/
theorem weighted_one_usable : ∃ quantized,
    (weightedRequest.answer {} { config := {} } ()).1 = .ok quantized ∧
      quantized.network = weightedRequest.network ∧
      quantized.network.UsableScales quantized.table := by
  have hbuilt : weightedRequest.network.Built := weighted_built (.ofNat .single 1)
  have hrevise : weightedRequest.revision.KeepsBuilt := Revision.keepsBuilt_leave
  have hanswer : (weightedRequest.answer {} { config := {} } ()).1.toOption.map
      (fun quantized => (quantized.network, quantized.report.restarts)) =
        some (weightedRequest.network, 0) := by
    simp only [weightedRequest, Quantizer.Request.answer, Quantizer.quantizeWithStats,
      Config.quantize, Quantizer.noRevision, Config.quantizeFinal, Config.sweepPlan,
      (weighted_built (.ofNat .single 1)).wellFormed.topologicalOrder_eq]
    decide +kernel
  cases hresult : (weightedRequest.answer {} { config := {} } ()).1 with
  | error error => simp [hresult, Except.toOption] at hanswer
  | ok quantized =>
      simp only [hresult, Except.toOption, Option.map_some, Option.some.injEq,
        Prod.mk.injEq] at hanswer
      obtain ⟨hnetwork, hrestarts⟩ := hanswer
      obtain ⟨_, _, plan, table, hplan, htable, _, husable⟩ :=
        quantized_usable hbuilt hrevise hresult
      rw [hnetwork] at hplan htable
      obtain ⟨hstandard, _⟩ :=
        SweepPlan.standard_of_sweepPlan hbuilt (by decide +kernel) hplan
      obtain rfl : plan = weightedPlan (.ofNat .single 1) :=
        Except.ok.inj (hplan.symm.trans (SweepPlan.sweepPlan_of_built hbuilt {}))
      obtain rfl : table = givenTable (.ofNat .single 4) :=
        Except.ok.inj (htable.symm.trans (by decide +kernel))
      have hrange := weighted_one_bounded.inRange hstandard (by decide)
      exact ⟨quantized, rfl, hnetwork, husable hrestarts.le hrange⟩

/-- A finite weight can be so small that its scale is infinite. -/
theorem weighted_tiny_not_usable :
    (Binary.ofDecimal .single false 1 (-36)).isFinite = true ∧
    (weighted (.ofDecimal .single false 1 (-36))).Built ∧ Config.validate {} = .ok () ∧
    (Binary.ofNat .single 1).IsUsable ∧ ∃ quantized,
      (Quantizer.quantizeWithStats { config := {} } (weighted (.ofDecimal .single false 1 (-36)))
        [.ofNat .single 1] none).2 = .ok quantized ∧
      ¬ (weighted (.ofDecimal .single false 1 (-36))).UsableScales quantized.table := by
  have hbuilt := weighted_built (.ofDecimal .single false 1 (-36))
  have hscale : ((Quantizer.quantizeWithStats { config := {} }
      (weighted (.ofDecimal .single false 1 (-36))) [.ofNat .single 1] none).2.toOption.map
        fun quantized => (quantized.table.get 1).weights.scale.isFinite) = some false := by
    simp only [Quantizer.quantizeWithStats, Config.quantize, Quantizer.noRevision,
      Config.quantizeFinal, Config.sweepPlan, hbuilt.wellFormed.topologicalOrder_eq]
    decide +kernel
  refine ⟨by decide +kernel, hbuilt, by decide +kernel, ⟨by decide +kernel, by decide +kernel⟩, ?_⟩
  cases hresult : (Quantizer.quantizeWithStats { config := {} }
      (weighted (.ofDecimal .single false 1 (-36))) [.ofNat .single 1] none).2 with
  | error error => simp [hresult, Except.toOption] at hscale
  | ok quantized =>
      refine ⟨quantized, rfl, fun husable => ?_⟩
      have hlayer : (weighted (.ofDecimal .single false 1 (-36))).layer? 1 = some
          { id := 1, name := "affine", kind := .affine, inputs := [0],
            weights := some [.ofDecimal .single false 1 (-36)] } := rfl
      have hfinite := ((husable 1 _ hlayer).weighted rfl).1.finite
      simp [hresult, Except.toOption, hfinite] at hscale

end LayerQuant
