import Mathlib
import LayerQuant.Proofs.LaterScales
import LayerQuant.Proofs.Nearest
import LayerQuant.Proofs.QuantizedLayers
import LayerQuant.Proofs.UsableScales

/-!
# Integer weights within their target

A weight scale is the target of the precision divided by the largest weight, rounded once, and a
limit on the output of the layer only lowers it (`limited_le_weightScale`). Under every finite scale
up to that quotient the integer of a weight is within the target, although two roundings come before
the last one: see `natAbs_quantize_le`. The quotient of a tiny weight is infinite, though, and then
`quantize_infinity` says that every weight other than zero lands on a bound of its type.
-/

namespace LayerQuant

open Binary

/-! ## Rounding errors -/

/-- Rounding to an integer keeps the order of what is rounded. -/
theorem roundHalfUp_mono {num num' : Nat} (h : num ≤ num') (den : Nat) :
    roundHalfUp num den ≤ roundHalfUp num' den :=
  Nat.div_le_div_right (Nat.add_le_add_right (Nat.mul_le_mul_left 2 h) den)

namespace Magnitude

variable {f : Format}

/-- What fills a binade grows by at most half a last place when it is rounded. -/
theorem units_round_le {num den : Nat} (hden : 0 < den) (hfills : f.binade * den ≤ num) :
    2 * f.binade * ((round f num den).units * den) ≤ (2 * f.binade + 1) * num := by
  obtain ⟨shift, significand, h⟩ := exists_found f num hden
  have hunits : (round f num den).units ≤ significand * Nat.pow 2 shift := by
    rw [← unitsAt_eq h.le h.full, ← h.unclamped_eq]
    exact (unitsAt_strictMono f).monotone (Nat.min_le_left _ _)
  have hplace : f.binade * (Nat.pow 2 shift * den) ≤ num := by
    rcases h.filled with rfl | hfilled
    · simpa using hfills
    · rwa [← Nat.mul_assoc]
  have hdist : 2 * (significand * Nat.pow 2 shift * den) ≤ 2 * num + Nat.pow 2 shift * den := by
    have := h.dist_le
    unfold Nat.dist at this
    omega
  calc 2 * f.binade * ((round f num den).units * den)
      ≤ 2 * f.binade * (significand * Nat.pow 2 shift * den) :=
        Nat.mul_le_mul_left _ (Nat.mul_le_mul_right _ hunits)
    _ = f.binade * (2 * (significand * Nat.pow 2 shift * den)) := by ring
    _ ≤ f.binade * (2 * num + Nat.pow 2 shift * den) := Nat.mul_le_mul_left _ hdist
    _ = 2 * f.binade * num + f.binade * (Nat.pow 2 shift * den) := by ring
    _ ≤ 2 * f.binade * num + num := Nat.add_le_add_left hplace _
    _ = (2 * f.binade + 1) * num := by ring

end Magnitude

/-! ## Weights and their scales -/

/-- The largest magnitude of an integer weight that scales aim at. -/
def Precision.target : Precision → Nat
  | int8 => 127
  | int16 => 16384

/-- Scales aim at the target exactly. -/
theorem Precision.maxWeight_eq (precision : Precision) :
    precision.maxWeight = .ofNat .single precision.target := by
  cases precision <;> rfl

/-- What is known of the largest magnitude of some finite weights: it is finite without a sign, and
none of the weights is larger. -/
theorem Layer.maxAbsWeight_spec {layer : Layer} {weights : List Single}
    (hweights : layer.weights = some weights) (hfinite : ∀ w ∈ weights, w.isFinite = true) :
    ∃ largest : Magnitude .single, layer.maxAbsWeight = number false largest ∧
      largest.ordinal < Format.single.infinity ∧
      ∀ w ∈ weights, ∃ n m, w = number n m ∧ m.ordinal ≤ largest.ordinal := by
  have hfold : layer.maxAbsWeight = (weights.map Binary.abs).foldl maximum .zero := by
    simp [Layer.maxAbsWeight, hweights, List.foldl_map]
  obtain ⟨hmem, hle⟩ := isLargest_foldl (weights.map Binary.abs) (.zero : Single)
  rw [← hfold] at hmem hle
  -- Zero and the magnitudes of the weights are finite without a sign, so the largest of them is.
  have hmembers : ∀ x ∈ .zero :: weights.map Binary.abs, ∃ m : Magnitude .single,
      x = number false m ∧ m.ordinal < Format.single.infinity := by
    intro x hx
    rcases List.mem_cons.1 hx with rfl | hx
    · exact ⟨.zero, rfl, by decide⟩
    · obtain ⟨w, hw, rfl⟩ := List.mem_map.1 hx
      have hw := hfinite w hw
      cases w with
      | nan => cases hw
      | number n m => exact ⟨m, rfl, isFinite_number.1 hw⟩
  obtain ⟨largest, hlargest, hbound⟩ := hmembers _ hmem
  refine ⟨largest, hlargest, hbound, fun w hw => ?_⟩
  have hw' := hfinite w hw
  cases w with
  | nan => cases hw'
  | number n m =>
      have hmem' : number false m ∈ .zero :: weights.map Binary.abs :=
        List.mem_cons_of_mem _ (List.mem_map.2 ⟨_, hw, rfl⟩)
      have habs : number false m ≤ layer.maxAbsWeight := (hle _ hmem').resolve_left (by simp)
      rw [hlargest] at habs
      exact ⟨n, m, rfl, number_false_le.1 habs⟩

namespace SweepPlan

variable {plan : SweepPlan} {sweep : Sweep} {layer : Layer} {input : Single}

/-- The largest weight times a finite scale up to that of the layer is at most the target, but for
one rounding. -/
theorem units_mul_weightScale_le {largest k : Magnitude .single}
    (hlargest : layer.maxAbsWeight = number false largest)
    (hfinite : largest.ordinal < Format.single.infinity)
    (hk : number false k ≤ plan.weightScale layer) :
    2 * Format.single.binade * (k.units * largest.units) ≤
      (2 * Format.single.binade + 1) *
        (plan.precision.target * Format.single.one * Format.single.one) := by
  rcases Nat.eq_zero_or_pos largest.ordinal with hzero | hpositive
  · simp [Magnitude.units_zero hzero]
  · have hunits := Magnitude.units_pos hpositive
    have htarget : ∀ precision : Precision,
        (Magnitude.round .single (precision.target * Format.single.one) 1).units =
            precision.target * Format.single.one ∧
          (Magnitude.round .single (precision.target * Format.single.one) 1).isInfinite = false ∧
          (Magnitude.round .single (precision.target * Format.single.one) 1).ordinal ≠ 0 ∧
          Format.single.binade * Magnitude.unitsAt .single Format.single.infinity ≤
            precision.target * Format.single.one * Format.single.one := by
      intro precision
      cases precision <;> decide +kernel
    obtain ⟨hexact, hnumber, hnonzero, hlarge⟩ := htarget plan.precision
    have hscale : plan.weightScale layer = ofUnits .single false
        (plan.precision.target * Format.single.one * Format.single.one) largest.units := by
      unfold weightScale
      dsimp only
      rw [hlargest, if_pos (zero_lt_number.2 hpositive), Precision.maxWeight_eq]
      show number false (.round .single (_ * Format.single.one) 1) / number false largest = _
      rw [div_number, hnumber, isInfinite_eq_false.2 hfinite, hexact]
      simp [hpositive.ne']
    rw [hscale] at hk
    have hle := Magnitude.units_mono (number_false_le.1 hk)
    have hfills : Format.single.binade * largest.units ≤
        plan.precision.target * Format.single.one * Format.single.one :=
      (Nat.mul_le_mul_left _ ((Magnitude.unitsAt_strictMono .single).monotone hfinite.le)).trans
        hlarge
    exact (Nat.mul_le_mul_left _ (Nat.mul_le_mul_right _ hle)).trans
      (Magnitude.units_round_le hunits hfills)

end SweepPlan

/-! ## Integers -/

theorem Binary.nearestInt_number {f : Format} (low high : Int) (n : Bool) (m : Magnitude f) :
    (number n m).nearestInt low high =
      if m.isInfinite then (if n then low else high)
      else max low (min high (signed n (roundHalfUp m.units f.one))) :=
  rfl

/-- Keeping an integer within bounds around zero does not enlarge it. -/
theorem natAbs_clamp_le {low high : Int} (hlow : low ≤ 0) (hhigh : 0 ≤ high) (n : Bool)
    (value : Nat) : (max low (min high (signed n value))).natAbs ≤ value := by
  unfold signed
  split <;> omega

namespace Precision

/-- The integer of a weight, if its product with the scale is at most the target but for one
rounding, is within the target. -/
theorem natAbs_quantize_le (precision : Precision) {n : Bool} {m k : Magnitude .single}
    (hm : m.ordinal < Format.single.infinity) (hk : k.ordinal < Format.single.infinity)
    (hproduct : 2 * Format.single.binade * (m.units * k.units) ≤
      (2 * Format.single.binade + 1) *
        (precision.target * Format.single.one * Format.single.one)) :
    (precision.quantize (number false k) (number n m)).natAbs ≤ precision.target := by
  -- The largest product that is left, rounded once more, is still nearest to the target.
  have htop : ∀ precision : Precision,
      (Magnitude.round .single ((2 * Format.single.binade + 1) *
          (precision.target * Format.single.one * Format.single.one))
        (2 * Format.single.binade * Format.single.one)).ordinal < Format.single.infinity ∧
      roundHalfUp (Magnitude.round .single ((2 * Format.single.binade + 1) *
          (precision.target * Format.single.one * Format.single.one))
        (2 * Format.single.binade * Format.single.one)).units Format.single.one =
          precision.target := by
    intro precision
    cases precision <;> decide +kernel
  obtain ⟨hfinite, hnearest⟩ := htop precision
  have hden := Nat.mul_pos (Nat.mul_pos two_pos Format.single.binade_pos) Format.single.one_pos
  have hfraction : m.units * k.units * (2 * Format.single.binade * Format.single.one) ≤
      (2 * Format.single.binade + 1) *
        (precision.target * Format.single.one * Format.single.one) * Format.single.one := by
    rw [show m.units * k.units * (2 * Format.single.binade * Format.single.one) =
      2 * Format.single.binade * (m.units * k.units) * Format.single.one by ring]
    exact Nat.mul_le_mul_right _ hproduct
  have hle := Magnitude.round_mono .single Format.single.one_pos hden hfraction
  have hinteger : roundHalfUp (Magnitude.round .single (m.units * k.units)
      Format.single.one).units Format.single.one ≤ precision.target :=
    (roundHalfUp_mono (Magnitude.units_mono hle) _).trans_eq hnearest
  have hmul : (number n m : Single) * number false k =
      number n (.round .single (m.units * k.units) Format.single.one) := by
    show (if m.isInfinite || k.isInfinite then _ else _) = _
    rw [isInfinite_eq_false.2 hm, isInfinite_eq_false.2 hk]
    cases n <;> rfl
  obtain ⟨hlow, hhigh⟩ := precision.bounds
  have hinfinite := isInfinite_eq_false.2 (hle.trans_lt hfinite)
  unfold quantize
  rw [hmul, nearestInt_number, hinfinite]
  exact (natAbs_clamp_le hlow hhigh n _).trans hinteger

/-- The integer that a weight lands on when it is driven out of the storage type. -/
def saturated (precision : Precision) (weight : Single) : Int :=
  if .zero < weight then precision.highest
  else if weight < .zero then precision.lowest
  else 0

/-- Under an infinite scale a finite weight leaves the storage type unless it is zero. -/
theorem quantize_infinity (precision : Precision) {weight : Single}
    (hfinite : weight.isFinite = true) :
    precision.quantize .infinity weight = precision.saturated weight := by
  cases weight with
  | nan => cases hfinite
  | number n m =>
      have hm := isInfinite_eq_false.2 (isFinite_number.1 hfinite)
      have htop : (Magnitude.infinite : Magnitude .single).isInfinite = true :=
        isInfinite_iff.2 rfl
      unfold quantize saturated
      rcases Nat.eq_zero_or_pos m.ordinal with hzero | hpositive
      · have hmul : (number n m : Single) * .infinity = .nan := by
          show (if m.isInfinite || _ then (if m.ordinal == 0 || _ then _ else _) else _) = _
          rw [htop, hzero]
          simp
        rw [hmul]
        simp [hzero, zero, position, signed, Magnitude.zero, nearestInt]
      · have hmul : (number n m : Single) * .infinity = number n .infinite := by
          show (if m.isInfinite || _ then (if m.ordinal == 0 || _ then _ else _) else _) = _
          rw [htop, if_pos (by simp), if_neg (by
            rw [beq_eq_false_iff_ne.2 hpositive.ne']
            decide)]
          cases n <;> rfl
        rw [hmul, nearestInt_number, htop]
        cases n <;> simp [zero, position, signed, Magnitude.zero, hpositive]

end Precision

/-! ## The integers of a quantization -/

/-- The scale of the weights of a layer, once all layers are derived, has no sign and is at most the
one that brings its largest weight to the target. -/
theorem SweepPlan.Sound.weights_scale_le {plan : SweepPlan} {final : Sweep} {id : Nat}
    {layer : Layer} (hplan : plan.Standard) (h : plan.Sound plan.network.size final)
    (hlayer : plan.network.layer? id = some layer) (hkind : layer.kind.hasWeights = true) :
    (final.table.get id).weights.scale.Unsigned ∧
      (final.table.get id).weights.scale ≤ plan.weightScale layer := by
  refine ⟨((h.hasUnsignedScales hplan hlayer).1.weighted hkind).1, ?_⟩
  have hinput : (plan.inputOf layer final).Unsigned := plan.unsigned_inputOf hplan fun p hp =>
    h.unsigned_output hplan ((hplan.formed.inputs_lt hlayer p hp).trans (Network.lt_size hlayer))
  have heq := congrArg Prod.fst ((h.settled hlayer (Network.lt_size hlayer)).weights_eq hkind)
  rw [hplan.formed.id_eq hlayer] at heq
  change (final.table.get id).weights.scale = _ at heq
  rw [heq]
  exact plan.limited_le_weightScale layer
    (SweepPlan.unsigned_outputLimit hplan fun hcap => (h.caps hcap).2) hinput

namespace Precision

/-- The integers of finite weights under the scale of a layer: within the target if the scale is
finite. Otherwise the target divided by the largest weight is beyond every finite number, and the
weights are driven out of the storage type. -/
theorem quantize_spec {plan : SweepPlan} {layer : Layer} {weights : List Single} {scale : Single}
    (hweights : layer.weights = some weights) (hfinite : ∀ w ∈ weights, w.isFinite = true)
    (hscale : scale.Unsigned) (hle : scale ≤ plan.weightScale layer) :
    (scale.isFinite = true → ∀ w ∈ weights,
      (plan.precision.quantize scale w).natAbs ≤ plan.precision.target) ∧
    (scale.isFinite = false →
      (plan.precision.maxWeight / layer.maxAbsWeight).isFinite = false ∧
        ∀ w ∈ weights, plan.precision.quantize scale w = plan.precision.saturated w) := by
  obtain ⟨largest, hlargest, hbound, hmembers⟩ := Layer.maxAbsWeight_spec hweights hfinite
  obtain ⟨k, rfl⟩ := hscale.exists_number (number_of_le_left hle)
  constructor
  · intro hk w hw
    rw [isFinite_number] at hk
    obtain ⟨n, m, rfl, hm⟩ := hmembers w hw
    refine plan.precision.natAbs_quantize_le (hm.trans_lt hbound) hk ?_
    have hproduct := SweepPlan.units_mul_weightScale_le hlargest hbound hle
    rw [Nat.mul_comm k.units] at hproduct
    exact (Nat.mul_le_mul_left _ (Nat.mul_le_mul_right _ (Magnitude.units_mono hm))).trans hproduct
  · intro hk
    obtain rfl : k = .infinite := by
      rw [isFinite, Bool.not_eq_false', isInfinite_iff] at hk
      exact Magnitude.eq_of_ordinal hk
    refine ⟨?_, fun w hw => plan.precision.quantize_infinity (hfinite w hw)⟩
    -- The scale of a layer without weights other than zero is one, so there is a largest weight.
    unfold SweepPlan.weightScale at hle
    dsimp only at hle
    split at hle
    · by_contra hquotient
      have hsmall := isFinite_of_le hscale (Bool.not_eq_false _ ▸ hquotient) hle
        (unsigned_div (by cases plan.precision <;> trivial) (hlargest ▸ unsigned_number))
      rw [hk] at hsmall
      cases hsmall
    · have hone : ¬ (Binary.infinity : Single) ≤ .ofNat .single 1 := by decide +kernel
      exact absurd hle hone

end Precision

open Quantizer in
/-- A quantization that succeeds converts each layer as its entry says in the end, and the scale of
its weights there has no sign and is at most the one that brings its largest weight to the
target. -/
theorem Quantizer.Request.layers_eq {σ : Type} {quantizer : Quantizer} {request : Request σ}
    {folder : Folder} {state : σ} {quantized : Quantized} (hbuilt : request.network.Built)
    (hrevise : request.revision.KeepsBuilt)
    (h : (request.answer folder quantizer state).1 = .ok quantized) {id : Nat} {layer : Layer}
    (hlayer : quantized.network.layer? id = some layer) :
    quantized.network.Built ∧
      quantized.layers[id]? =
        some (quantizer.config.converter.convertLayer layer (quantized.table.get id)) ∧
      (layer.kind.hasWeights = true →
        ∃ plan : SweepPlan, plan.precision = quantizer.config.weightsPrecision ∧
          (quantized.table.get id).weights.scale.Unsigned ∧
          (quantized.table.get id).weights.scale ≤ plan.weightScale layer) := by
  obtain ⟨hfinal, staged, hconvert, _⟩ := request.staged hbuilt hrevise h
  obtain ⟨_, hplan⟩ := SweepPlan.sweepPlan_eq_ok hfinal staged.plan_eq
  refine ⟨hfinal, ?_, fun hkind => ?_⟩
  · have hid := Network.lt_size hlayer
    obtain ⟨hlength, hlayers⟩ :=
      List.forall₂_iff_get.1 (Converter.convertIds_layers hconvert).2
    rw [List.length_range] at hlength
    have hid' : id < quantized.layers.length := hlength ▸ hid
    obtain ⟨found, hfound, hconverted⟩ := hlayers id (by simpa using hid) hid'
    rw [List.get_eq_getElem, List.getElem_range, hlayer] at hfound
    obtain rfl := Option.some.inj hfound
    rw [List.getElem?_eq_getElem hid']
    rw [List.get_eq_getElem, hfinal.wellFormed.id_eq hlayer] at hconverted
    exact congrArg some hconverted
  · obtain ⟨hstandard, hnetwork, _, _, hsound⟩ := staged.reaches hfinal
    have hscales := hsound.weights_scale_le hstandard (hnetwork ▸ hlayer) hkind
    rw [← staged.weights_scale] at hscales
    exact ⟨staged.plan, by rw [hplan], hscales⟩

open Quantizer in
/-- A layer with finite weights gets an integer for each of them. If the scale of its weights is
finite, no integer is larger than the target of the precision. Otherwise the target divided by the
largest weight is beyond every finite number, and every weight other than zero gets the bound of the
storage type on its side. -/
theorem quantized_weights_within {σ : Type} {quantizer : Quantizer} {request : Request σ}
    {folder : Folder} {state : σ} {quantized : Quantized} (hbuilt : request.network.Built)
    (hrevise : request.revision.KeepsBuilt)
    (h : (request.answer folder quantizer state).1 = .ok quantized) {id : Nat} {layer : Layer}
    {weights : List Single} (hlayer : quantized.network.layer? id = some layer)
    (hweights : layer.weights = some weights) (hfinite : ∀ w ∈ weights, w.isFinite = true) :
    ∃ converted values, quantized.layers[id]? = some converted ∧
      converted.weights = some ⟨quantizer.config.weightsPrecision, values⟩ ∧
      values.length = weights.length ∧
      ((quantized.table.get id).weights.scale.isFinite = true →
        ∀ value ∈ values, value.natAbs ≤ quantizer.config.weightsPrecision.target) ∧
      ((quantized.table.get id).weights.scale.isFinite = false →
        (quantizer.config.weightsPrecision.maxWeight / layer.maxAbsWeight).isFinite = false ∧
          values = weights.map quantizer.config.weightsPrecision.saturated) := by
  obtain ⟨hfinal, hconverted, hscale⟩ := request.layers_eq hbuilt hrevise h hlayer
  have hkind := (hfinal.lawful.layers hlayer).weighted (by simp [hweights])
  obtain ⟨plan, hprecision, hunsigned, hle⟩ := hscale hkind
  obtain ⟨hwithin, hbeyond⟩ := Precision.quantize_spec hweights hfinite hunsigned hle
  rw [hprecision] at hwithin hbeyond
  refine ⟨_, weights.map (quantizer.config.weightsPrecision.quantize
    (quantized.table.get id).weights.scale), hconverted, ?_, by simp, fun hscale => ?_,
    fun hscale => ⟨(hbeyond hscale).1, List.map_congr_left (hbeyond hscale).2⟩⟩
  · simp [Converter.convertLayer, Converter.weightsOf, hkind, hweights, Config.converter]
  · intro value hvalue
    obtain ⟨w, hw, rfl⟩ := List.mem_map.1 hvalue
    exact hwithin hscale w hw

/-- A request to quantize an input and an affine layer with a weight of a tenth. -/
def tenthRequest : Quantizer.Request Unit :=
  .quantizeWithStats (weighted (.ofRatio .single false 1 10)) [.ofNat .single 4] none

/-- A quantizer to weights of eight bits. -/
def byteQuantizer : Quantizer := { config := { weightsPrecision := .int8 } }

/-- A weight of a tenth has a finite scale, which is rounded, and stays within the target. -/
theorem tenth_within : ∃ quantized converted value,
    (tenthRequest.answer {} byteQuantizer ()).1 = .ok quantized ∧
      quantized.layers[1]? = some converted ∧ converted.weights = some ⟨.int8, [value]⟩ ∧
      value.natAbs ≤ 127 := by
  have hbuilt : tenthRequest.network.Built := weighted_built (.ofRatio .single false 1 10)
  have hrevise : tenthRequest.revision.KeepsBuilt := Revision.keepsBuilt_leave
  have hanswer : (tenthRequest.answer {} byteQuantizer ()).1.toOption.map
      (fun quantized => (quantized.network, (quantized.table.get 1).weights.scale.isFinite)) =
        some (tenthRequest.network, true) := by
    simp only [tenthRequest, Quantizer.Request.answer, Quantizer.quantizeWithStats,
      Config.quantize, Quantizer.noRevision, Config.quantizeFinal, Config.sweepPlan,
      (weighted_built (.ofRatio .single false 1 10)).wellFormed.topologicalOrder_eq]
    decide +kernel
  cases hresult : (tenthRequest.answer {} byteQuantizer ()).1 with
  | error error => simp [hresult, Except.toOption] at hanswer
  | ok quantized =>
      simp only [hresult, Except.toOption, Option.map_some, Option.some.injEq,
        Prod.mk.injEq] at hanswer
      have hlayer : quantized.network.layer? 1 = some
          { id := 1, name := "affine", kind := .affine, inputs := [0],
            weights := some [.ofRatio .single false 1 10] } := by
        rw [hanswer.1]
        rfl
      obtain ⟨converted, values, hconverted, hweights, hlength, hwithin, _⟩ :=
        quantized_weights_within hbuilt hrevise hresult hlayer rfl (by decide +kernel)
      obtain ⟨value, rfl⟩ := List.length_eq_one_iff.1 hlength
      exact ⟨quantized, converted, value, rfl, hconverted, hweights,
        hwithin hanswer.2 value List.mem_cons_self⟩

/-- A finite weight can be so small that its integer leaves the target. -/
theorem weighted_tiny_beyond_target :
    (Binary.ofDecimal .single false 1 (-36)).isFinite = true ∧
    (weighted (.ofDecimal .single false 1 (-36))).Built ∧ ∃ quantized converted,
      (Quantizer.quantizeWithStats { config := {} } (weighted (.ofDecimal .single false 1 (-36)))
        [.ofNat .single 1] none).2 = .ok quantized ∧
      quantized.layers[1]? = some converted ∧ converted.weights = some ⟨.int16, [32767]⟩ ∧
      ¬ (32767 : Int).natAbs ≤ Precision.int16.target := by
  have hbuilt := weighted_built (.ofDecimal .single false 1 (-36))
  have hlayers : ((Quantizer.quantizeWithStats { config := {} }
      (weighted (.ofDecimal .single false 1 (-36))) [.ofNat .single 1] none).2.toOption.map
        fun quantized => (quantized.layers[1]?.map (·.weights))) =
          some (some (some ⟨.int16, [32767]⟩)) := by
    simp only [Quantizer.quantizeWithStats, Config.quantize, Quantizer.noRevision,
      Config.quantizeFinal, Config.sweepPlan, hbuilt.wellFormed.topologicalOrder_eq]
    decide +kernel
  refine ⟨by decide +kernel, hbuilt, ?_⟩
  cases hresult : (Quantizer.quantizeWithStats { config := {} }
      (weighted (.ofDecimal .single false 1 (-36))) [.ofNat .single 1] none).2 with
  | error error => simp [hresult, Except.toOption] at hlayers
  | ok quantized =>
      simp only [hresult, Except.toOption, Option.map_some, Option.some.injEq,
        Option.map_eq_some_iff] at hlayers
      obtain ⟨converted, hconverted, hweights⟩ := hlayers
      exact ⟨quantized, converted, rfl, hconverted, hweights, by decide⟩

end LayerQuant
