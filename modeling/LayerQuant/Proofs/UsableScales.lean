import Mathlib
import LayerQuant.Proofs.LaterScales
import LayerQuant.Proofs.ScaleProducts

/-!
# When all scales are usable

A scale is usable if it is positive and finite. No sweep checks that the ones it computes are, and
its quotients and products can overflow or vanish. `UsableSources` collects where that can begin: in
the widened ranges, in the products of weighted layers, and in their weight scales. The scales of a
settled network are usable exactly if none of it happens there (`usable_iff`).
-/

namespace LayerQuant

/-- The scale is positive and finite. -/
structure Binary.IsUsable {f : Format} (scale : Binary f) : Prop where
  pos : .zero < scale
  finite : scale.isFinite = true

/-- The scales of the input and the output of a layer are usable, and those of its weights and its
bias if it has weights. -/
structure LayerEdges.HasUsableScales (kind : Kind) (edges : LayerEdges) : Prop where
  input : edges.input.scale.IsUsable
  output : edges.output.scale.IsUsable
  weighted : kind.hasWeights = true → edges.weights.scale.IsUsable ∧ edges.bias.scale.IsUsable

/-- No scale of the layer carries a sign: each is not a number, zero, or above zero. -/
structure LayerEdges.HasUnsignedScales (kind : Kind) (edges : LayerEdges) : Prop where
  input : edges.input.scale.Unsigned
  output : edges.output.scale.Unsigned
  weighted : kind.hasWeights = true → edges.weights.scale.Unsigned ∧ edges.bias.scale.Unsigned

open Binary

/-- A positive scale that is at most a usable one is usable. -/
theorem Binary.IsUsable.of_le {f : Format} {scale other : Binary f} (hpos : .zero < scale)
    (hle : scale ≤ other) (h : other.IsUsable) : scale.IsUsable :=
  ⟨hpos, isFinite_of_le (unsigned_of_pos hpos) h.finite hle (unsigned_of_pos h.pos)⟩

namespace SweepPlan

variable {plan : SweepPlan} {start sweep final : Sweep} {layer : Layer} {id k : Nat}
  {scale : Single}

/-- Inputs with usable scales arrive at a usable scale. -/
theorem isUsable_inputOf (hplan : plan.Standard)
    (h : ∀ p ∈ layer.inputs, (sweep.outputScale p).IsUsable) :
    (plan.inputOf layer sweep).IsUsable := by
  unfold inputOf
  cases hleast : smallest? (layer.inputs.map sweep.outputScale) with
  | none => exact ⟨hplan.zero_lt_default, hplan.default_finite⟩
  | some least =>
      obtain ⟨p, hp, rfl⟩ := List.mem_map.1 (isSmallest_of_smallest? hleast).1
      exact h p hp

/-- A usable scale stays usable under a positive cap. -/
theorem isUsable_capped (hcaps : ∀ {cap}, sweep.cap? id = some cap → .zero < cap)
    (h : scale.IsUsable) : (sweep.capped id scale).IsUsable :=
  .of_le (capped_pos hcaps h.pos) (capped_le scale (number_of_lt_right h.pos)) h

/-- The scale of a range is usable if it is positive. -/
theorem isUsable_rangeScale (hplan : plan.Standard) (h : plan.rangeScale? sweep id = some scale)
    (hpos : .zero < scale) : scale.IsUsable :=
  ⟨hpos, (Edge.rangeScale?_usable hplan.rule h).2⟩

end SweepPlan

/-- The scale that brings the largest weight of a layer to the target of the precision. -/
def Precision.fullScale (precision : Precision) (layer : Layer) : Single :=
  if .zero < layer.maxAbsWeight then precision.maxWeight / layer.maxAbsWeight
  else .ofNat .single 1

/-- A weighted layer gets usable scales from usable inputs: the product of its input scale and its
full weight scale has not vanished, and if the output was limited below that product, the quotient
that becomes the weight scale is usable, else the full weight scale and the product are finite. -/
structure WeightsFit (input full output : Single) : Prop where
  product_pos : .zero < input * full
  limited : output < input * full → (output / input).IsUsable
  kept : ¬ output < input * full → full.isFinite = true ∧ (input * full).isFinite = true

/-- Where usable scales come from: the weights of every weighted layer fit the scale that its inputs
arrive at, and no range that a layer chooses its scale by becomes infinite when it is widened. -/
structure UsableSources (network : Network) (precision : Precision) (rule : ScaleRule)
    (table : EdgeTable) : Prop where
  weighted : ∀ {id layer}, network.layer? id = some layer → layer.kind.hasWeights = true →
    WeightsFit (table.get id).input.scale (precision.fullScale layer) (table.get id).bias.scale
  ranged : ∀ {id layer range}, network.layer? id = some layer → layer.kind.canRescale = true →
    (table.get id).output.aggregated? = some range → rule.minRange < range →
    range * rule.guardband ≠ .infinity

namespace SweepPlan

variable {plan : SweepPlan} {start sweep final : Sweep} {layer : Layer} {id k : Nat}
  {scale : Single}

theorem weightScale_eq (plan : SweepPlan) (layer : Layer) :
    plan.weightScale layer = plan.precision.fullScale layer := rfl

/-- An output that is limited has the weights give way. -/
theorem limited_of_lt {input : Single}
    (h : (plan.limited layer input sweep).2 < input * plan.weightScale layer) :
    (plan.limited layer input sweep).1 = (plan.limited layer input sweep).2 / input := by
  unfold limited at h ⊢
  cases hlimit : plan.outputLimit? sweep layer.id with
  | none =>
      simp only [hlimit] at h
      exact absurd h not_lt_self
  | some limit =>
      by_cases hexceeds : limit < input * plan.weightScale layer
      · simp only [hexceeds, if_true]
      · simp only [hlimit, hexceeds, if_false] at h
        exact absurd h not_lt_self

/-- An output that is not limited is the product of both scales. -/
theorem limited_of_not_lt {input : Single}
    (h : ¬ (plan.limited layer input sweep).2 < input * plan.weightScale layer) :
    plan.limited layer input sweep = (plan.weightScale layer, input * plan.weightScale layer) := by
  unfold limited at h ⊢
  cases hlimit : plan.outputLimit? sweep layer.id with
  | none => rfl
  | some limit =>
      by_cases hexceeds : limit < input * plan.weightScale layer
      · simp only [hlimit, hexceeds, if_true, not_true_eq_false] at h
      · simp only [hexceeds, if_false]

theorem Written.arrives (h : plan.Written layer final) (hkind : layer.kind.hasWeights = true) :
    (final.table.get layer.id).input.scale = plan.inputOf layer final := by
  rw [h.input_eq, scalesFor_of_weighted hkind]

/-- The weights of a settled layer fit if the product is positive and what was derived from it is
usable where the limit has come in, and finite where it has not. -/
theorem Sound.weightsFit_iff (hplan : plan.Standard) (h : plan.Sound plan.network.size final)
    (hlayer : plan.network.layer? id = some layer) (hkind : layer.kind.hasWeights = true) :
    WeightsFit (final.table.get id).input.scale (plan.precision.fullScale layer)
        (final.table.get id).bias.scale ↔
      WeightsFit (plan.inputOf layer final) (plan.weightScale layer)
        (plan.limited layer (plan.inputOf layer final) final).2 := by
  have hsettled := h.settled hlayer (Network.lt_size hlayer)
  rw [← hplan.formed.id_eq hlayer, hsettled.written.arrives hkind, hsettled.bias_eq hkind, weightScale_eq]

theorem Sound.positiveSources (hplan : plan.Standard) (h : plan.Sound plan.network.size final)
    (hsources : UsableSources plan.network plan.precision plan.rule final.table) :
    plan.PositiveSources final where
  weighted := fun hlayer hkind =>
    ((h.weightsFit_iff hplan hlayer hkind).1 (hsources.weighted hlayer hkind)).product_pos
  ranged := by
    intro id layer scale hlayer hkind hscale
    rw [hplan.formed.id_eq hlayer] at hscale
    obtain ⟨range, hrange, habove, rfl⟩ := Edge.rangeScale?_eq_some.1 hscale
    exact (hplan.rule.zero_lt_scaleFor_iff (hplan.rule.zero_lt habove)).2
      (hsources.ranged hlayer hkind hrange habove)

/-- Under positive caps, the weight and bias scales of a layer whose weights fit are usable. -/
theorem Sound.isUsable_limited (hplan : plan.Standard) (h : plan.Sound plan.network.size final)
    (hsources : plan.PositiveSources final)
    (hcaps : ∀ {id cap}, final.cap? id = some cap → .zero < cap)
    (hlayer : plan.network.layer? id = some layer) (hkind : layer.kind.hasWeights = true)
    (hinput : (plan.inputOf layer final).IsUsable)
    (hfit : WeightsFit (plan.inputOf layer final) (plan.weightScale layer)
      (plan.limited layer (plan.inputOf layer final) final).2) :
    (plan.limited layer (plan.inputOf layer final) final).1.IsUsable ∧
      (plan.limited layer (plan.inputOf layer final) final).2.IsUsable := by
  have hunsigned := unsigned_of_pos hinput.pos
  have hproduct := unsigned_of_pos hfit.product_pos
  by_cases hlimited : (plan.limited layer (plan.inputOf layer final) final).2 <
      plan.inputOf layer final * plan.weightScale layer
  · have hfollows : plan.Follows plan.network.size final final := ⟨h, .refl, h, hsources⟩
    have hpos := hfollows.limited_pos hplan hcaps hlayer hkind hfit.product_pos
    rw [limited_of_lt hlimited]
    exact ⟨hfit.limited hlimited, hpos, isFinite_of_lt (unsigned_of_pos hpos) hproduct hlimited⟩
  · obtain ⟨hfull, hfinite⟩ := hfit.kept hlimited
    have hweights := pos_of_mul_pos hunsigned (plan.unsigned_weightScale layer) hfit.product_pos
    rw [limited_of_not_lt hlimited]
    exact ⟨⟨hweights, hfull⟩, hfit.product_pos, hfinite⟩

/-- A layer with usable weight and bias scales has weights that fit. -/
theorem weightsFit_of_isUsable
    (hweights : (plan.limited layer (plan.inputOf layer final) final).1.IsUsable)
    (hbias : (plan.limited layer (plan.inputOf layer final) final).2.IsUsable) :
    WeightsFit (plan.inputOf layer final) (plan.weightScale layer)
      (plan.limited layer (plan.inputOf layer final) final).2 where
  product_pos :=
    lt_of_lt_of_le' hbias.pos (limited_le plan layer final (number_of_lt_right hbias.pos)).1
  limited := fun hlimited => by rwa [← limited_of_lt hlimited]
  kept := fun hlimited => by
    rw [limited_of_not_lt hlimited] at hweights hbias
    exact ⟨hweights.finite, hbias.finite⟩

/-- With usable sources and positive caps, the scales derived for a layer are usable if those of its
inputs are. -/
theorem Sound.isUsable_scalesFor (hplan : plan.Standard) (h : plan.Sound plan.network.size final)
    (hsources : UsableSources plan.network plan.precision plan.rule final.table)
    (hcaps : ∀ {id cap}, final.cap? id = some cap → .zero < cap)
    (hlayer : plan.network.layer? id = some layer)
    (hinputs : ∀ p ∈ layer.inputs, (final.outputScale p).IsUsable) :
    (plan.scalesFor layer final).input.IsUsable ∧ (plan.scalesFor layer final).output.IsUsable := by
  have hid := hplan.formed.id_eq hlayer
  have hinput := isUsable_inputOf hplan hinputs
  have hpositive := h.positiveSources hplan hsources
  have hranged : ∀ {scale}, layer.kind.canRescale = true →
      plan.rangeScale? final layer.id = some scale → scale.IsUsable := fun hkind hscale =>
    isUsable_rangeScale hplan hscale (hpositive.ranged hlayer hkind hscale)
  by_cases hkind : layer.kind = .input
  · obtain ⟨hpositive, hfinite⟩ := h.given_getD hplan hlayer hkind
    unfold scalesFor
    simp only [hkind, hid]
    exact ⟨⟨hpositive, hfinite⟩, ⟨hpositive, hfinite⟩⟩
  by_cases hmemory : layer.kind = .memory
  · have hscale : ((plan.rangeScale? final layer.id).getD plan.defaultScale).IsUsable := by
      cases hscale : plan.rangeScale? final layer.id with
      | none => exact ⟨hplan.zero_lt_default, hplan.default_finite⟩
      | some scale => exact hranged (by rw [hmemory]; rfl) hscale
    unfold scalesFor
    simp only [hmemory]
    exact ⟨isUsable_capped hcaps hscale, isUsable_capped hcaps hscale⟩
  cases hweights : layer.kind.hasWeights with
  | true =>
      have hfit := (h.weightsFit_iff hplan hlayer hweights).1 (hsources.weighted hlayer hweights)
      have hbias := (h.isUsable_limited hplan hpositive hcaps hlayer hweights hinput hfit).2
      rw [scalesFor_of_weighted hweights]
      exact ⟨hinput, isUsable_capped hcaps hbias⟩
  | false =>
      rw [scalesFor_of_plain hkind hmemory hweights]
      refine ⟨hinput, isUsable_capped hcaps ?_⟩
      unfold plainOutput
      split
      · rename_i range hlayer_kind hscale
        exact hranged (by rw [hlayer_kind]; rfl) hscale
      · rename_i range hlayer_kind hscale
        have hrange := hranged (by rw [hlayer_kind]; rfl) hscale
        exact minimum_of_both (p := IsUsable) hinput hrange
      · exact hinput

/-- After a run no scale has a sign, and the scales of graph inputs are usable. -/
theorem Sound.hasUnsignedScales (hplan : plan.Standard) (h : plan.Sound plan.network.size final)
    (hlayer : plan.network.layer? id = some layer) :
    (final.table.get id).HasUnsignedScales layer.kind ∧
      (layer.kind = .input → (final.table.get id).HasUsableScales layer.kind) := by
  have hid := hplan.formed.id_eq hlayer
  have hsettled := h.settled hlayer (Network.lt_size hlayer)
  have hinputs : ∀ p ∈ layer.inputs, (final.outputScale p).Unsigned := by
    intro p hp
    have hlt := hplan.formed.inputs_lt hlayer p hp
    exact h.unsigned_output hplan (hlt.trans (Network.lt_size hlayer))
  have houtput : (final.table.get layer.id).output.scale.Unsigned :=
    h.unsigned_output hplan (by rw [hid]; exact Network.lt_size hlayer)
  have hinput := plan.unsigned_inputOf hplan hinputs
  have hsame : layer.kind = .input ∨ layer.kind = .memory →
      (final.table.get layer.id).input.scale = (final.table.get layer.id).output.scale := by
    intro hkind
    have heq := hsettled.output_eq
    rw [hsettled.input_eq]
    show _ = final.outputScale layer.id
    rw [heq]
    unfold scalesFor
    rcases hkind with hkind | hkind <;> simp only [hkind]
  rw [← hid]
  constructor
  · refine ⟨?_, houtput, fun hkind => ?_⟩
    · by_cases hkind : layer.kind = .input ∨ layer.kind = .memory
      · rw [hsame hkind]
        exact houtput
      · rw [not_or] at hkind
        rw [hsettled.input_eq]
        cases hweights : layer.kind.hasWeights with
        | true =>
            rw [scalesFor_of_weighted hweights]
            exact hinput
        | false =>
            rw [scalesFor_of_plain hkind.1 hkind.2 hweights]
            exact hinput
    · have hlimited : (plan.limited layer (plan.inputOf layer final) final).1.Unsigned ∧
          (plan.limited layer (plan.inputOf layer final) final).2.Unsigned :=
        unsigned_limited hplan (fun hcap => (h.caps hcap).2) hinput
      rw [← hsettled.weights_eq hkind] at hlimited
      exact hlimited
  · intro hkind
    have hgiven : (final.table.get layer.id).output.scale.IsUsable := by
      show (final.outputScale layer.id).IsUsable
      rw [hsettled.output_eq]
      unfold scalesFor
      simp only [hkind, hid]
      obtain ⟨hpositive, hfinite⟩ := h.given_getD hplan hlayer hkind
      exact ⟨hpositive, hfinite⟩
    refine ⟨?_, hgiven, fun hweights => by simp [hkind, Kind.hasWeights] at hweights⟩
    rw [hsame (Or.inl hkind)]
    exact hgiven

/-- After a run with usable scales, the sources are usable. -/
theorem Sound.usableSources (hplan : plan.Standard) (h : plan.Sound plan.network.size final)
    (husable : ∀ {id layer}, plan.network.layer? id = some layer →
      (final.table.get id).HasUsableScales layer.kind) :
    UsableSources plan.network plan.precision plan.rule final.table where
  weighted := by
    intro id layer hlayer hkind
    have hsettled := h.settled hlayer (Network.lt_size hlayer)
    have hlimited : (plan.limited layer (plan.inputOf layer final) final).1.IsUsable ∧
        (plan.limited layer (plan.inputOf layer final) final).2.IsUsable := by
      rw [← hsettled.weights_eq hkind, hplan.formed.id_eq hlayer]
      exact (husable hlayer).weighted hkind
    exact (h.weightsFit_iff hplan hlayer hkind).2
      (weightsFit_of_isUsable hlimited.1 hlimited.2)
  ranged := by
    intro id layer range hlayer hkind hrange habove
    have hid := hplan.formed.id_eq hlayer
    have hsettled := h.settled hlayer (Network.lt_size hlayer)
    obtain ⟨_, houtput, hweighted⟩ := husable hlayer
    have hscale : plan.rangeScale? final layer.id = some (plan.rule.scaleFor range) := by
      rw [hid]
      exact Edge.rangeScale?_eq_some.2 ⟨range, hrange, habove, rfl⟩
    have hnumber := Edge.rangeScale?_number hplan.rule hscale
    rw [← hplan.rule.zero_lt_scaleFor_iff (hplan.rule.zero_lt habove)]
    rw [← hid] at houtput hweighted
    rcases output_le_of_canRescale hkind hscale hnumber with hle | ⟨hweights, hproduct⟩
    · have hpos : .zero < final.outputScale layer.id := houtput.pos
      rw [hsettled.output_eq] at hpos
      exact lt_of_lt_of_le' hpos hle
    · -- A bias scale that is a number is at most the product, which is then one too.
      have hbias := (hweighted hweights).2.pos
      rw [hsettled.bias_eq hweights] at hbias
      have hle := (limited_le plan layer final (number_of_lt_right hbias)).1
      rw [number_of_le_right hle] at hproduct
      cases hproduct

/-- After a run all scales are usable exactly if the sources are. -/
theorem usable_iff (hplan : plan.Standard) (hstart : plan.Sound 0 start)
    (hnone : ∀ id, start.cap? id = none) (hreaches : plan.Reaches start final)
    (h : plan.Sound plan.network.size final) :
    (∀ {id layer}, plan.network.layer? id = some layer →
      (final.table.get id).HasUsableScales layer.kind) ↔
        UsableSources plan.network plan.precision plan.rule final.table := by
  refine ⟨fun husable => h.usableSources hplan husable, fun hsources => ?_⟩
  have hpositive := h.positiveSources hplan hsources
  have hcaps : ∀ {id cap}, final.cap? id = some cap → .zero < cap :=
    caps_pos hplan hstart hnone h hpositive hreaches .refl
  have houtputs : ∀ id < plan.network.size, (final.outputScale id).IsUsable := by
    intro id hid
    refine hplan.formed.induct le_rfl id hid fun {id layer} hlayer hid hinputs => ?_
    have houtput := (h.isUsable_scalesFor hplan hsources hcaps hlayer hinputs).2
    rwa [← (h.settled hlayer hid).output_eq, hplan.formed.id_eq hlayer] at houtput
  intro id layer hlayer
  have hid := hplan.formed.id_eq hlayer
  have hsize := Network.lt_size hlayer
  have hsettled := h.settled hlayer hsize
  have hinputs : ∀ p ∈ layer.inputs, (final.outputScale p).IsUsable := fun p hp =>
    houtputs p ((hplan.formed.inputs_lt hlayer p hp).trans hsize)
  have hinput := (h.isUsable_scalesFor hplan hsources hcaps hlayer hinputs).1
  rw [← hsettled.input_eq, hid] at hinput
  refine ⟨hinput, houtputs id hsize, fun hkind => ?_⟩
  have hfit := (h.weightsFit_iff hplan hlayer hkind).1 (hsources.weighted hlayer hkind)
  have hweighted := h.isUsable_limited hplan hpositive hcaps hlayer hkind
    (isUsable_inputOf hplan hinputs) hfit
  rw [← hsettled.weights_eq hkind, hid] at hweighted
  exact hweighted

end SweepPlan

end LayerQuant
