import Mathlib
import LayerQuant.Proofs.UnmetScales

/-!
# Scales only go down

From one state of a sweep to a later one graph inputs keep their scales, layers keep their ranges,
and caps only tighten (`Tightens`); under that the scales of a layer go down with the scale at which
its inputs arrive (`Tightens.scalesFor_le`), as long as they are numbers. With usable settings they
are if the sweep ends with positive ones: what is positive at the end was positive all along
(`Follows.output_le`), so no cap is ever zero (`caps_pos`).
-/

namespace LayerQuant

/-- Weighted layers choose their own output scale. -/
theorem Kind.canRescale_of_hasWeights {kind : Kind} (h : kind.hasWeights = true) :
    kind.canRescale = true := by
  cases kind <;> first | rfl | cases h

namespace SweepPlan

open Binary

variable {plan : SweepPlan} {start sweep final : Sweep} {layer : Layer} {id k : Nat}
  {scale other : Single}

/-- Under tighter caps a smaller scale stays smaller. -/
theorem capped_mono
    (hcaps : ∀ {cap}, sweep.cap? id = some cap → ∃ tight, final.cap? id = some tight ∧ tight ≤ cap)
    (hle : scale ≤ other) : final.capped id scale ≤ sweep.capped id other := by
  have hscale : final.capped id scale ≤ scale := capped_le scale (number_of_le_left hle)
  have hother : final.capped id scale ≤ other := le_trans' hscale hle
  cases hcap : sweep.cap? id with
  | none => simpa [Sweep.capped, hcap] using hother
  | some cap =>
      obtain ⟨tight, htight, hcap_le⟩ := hcaps hcap
      have hunder : final.capped id scale ≤ cap :=
        le_trans' (capped_le_cap htight (number_of_le_left hcap_le) scale) hcap_le
      have hcapped : sweep.capped id other = other.minimum cap := by simp [Sweep.capped, hcap]
      rw [hcapped]
      exact minimum_of_both (p := (final.capped id scale ≤ ·)) hother hunder

/-- A positive scale under a positive cap is positive. -/
theorem capped_pos (hcaps : ∀ {cap}, sweep.cap? id = some cap → .zero < cap)
    (hscale : .zero < scale) : .zero < sweep.capped id scale :=
  capped_of (p := (.zero < ·)) hscale hcaps

/-- Inputs that have gone down arrive at a smaller scale. -/
theorem inputOf_mono (hdefault : layer.inputs = [] → plan.defaultScale.isNaN = false)
    (h : ∀ p ∈ layer.inputs, final.outputScale p ≤ sweep.outputScale p) :
    plan.inputOf layer final ≤ plan.inputOf layer sweep := by
  cases hleast : smallest? (layer.inputs.map sweep.outputScale) with
  | none =>
      have hempty : layer.inputs = [] := List.map_eq_nil_iff.1 (smallest?_eq_none.1 hleast)
      simpa [inputOf, hempty, smallest?] using le_refl_of_number (hdefault hempty)
  | some least =>
      obtain ⟨p, hp, rfl⟩ := List.mem_map.1 (isSmallest_of_smallest? hleast).1
      have hsweep : plan.inputOf layer sweep = sweep.outputScale p := by simp [inputOf, hleast]
      rw [hsweep]
      exact le_trans' (plan.inputOf_le hp (number_of_le_left (h p hp))) (h p hp)

/-- Positive inputs arrive at a positive scale. -/
theorem inputOf_pos (hplan : plan.Standard)
    (h : ∀ p ∈ layer.inputs, .zero < sweep.outputScale p) :
    .zero < plan.inputOf layer sweep := by
  unfold inputOf
  cases hleast : smallest? (layer.inputs.map sweep.outputScale) with
  | none => exact hplan.zero_lt_default
  | some least =>
      obtain ⟨p, hp, rfl⟩ := List.mem_map.1 (isSmallest_of_smallest? hleast).1
      exact h p hp

/-- A limit is at most the range-derived scale of the layer and at most its cap. -/
theorem outputLimit?_le (hmem : plan.rangeScale? sweep id = some scale ∨ sweep.cap? id = some scale)
    (hnumber : scale.isNaN = false) :
    ∃ limit, plan.outputLimit? sweep id = some limit ∧ limit ≤ scale := by
  have hlist : scale ∈ [plan.rangeScale? sweep id, sweep.cap? id].reduceOption := by
    simpa [List.reduceOption_mem_iff, eq_comm] using hmem
  unfold outputLimit?
  cases hlimit : smallest? [plan.rangeScale? sweep id, sweep.cap? id].reduceOption with
  | none =>
      rw [smallest?_eq_none.1 hlimit] at hlist
      cases hlist
  | some limit => exact ⟨limit, rfl, (isSmallest_of_smallest? hlimit).le hlist hnumber⟩

/-- The output of a weighted layer, if it is a number, is at most the product of its input and
weight scales and at most its limit. -/
theorem limited_le (plan : SweepPlan) (layer : Layer) (sweep : Sweep)
    (hnumber : (plan.limited layer (plan.inputOf layer sweep) sweep).2.isNaN = false) :
    (plan.limited layer (plan.inputOf layer sweep) sweep).2 ≤
        plan.inputOf layer sweep * plan.weightScale layer ∧
      ∀ limit, plan.outputLimit? sweep layer.id = some limit → limit.isNaN = false →
        (plan.limited layer (plan.inputOf layer sweep) sweep).2 ≤ limit := by
  unfold limited at hnumber ⊢
  cases hlimit : plan.outputLimit? sweep layer.id with
  | none =>
      simp only [hlimit] at hnumber ⊢
      exact ⟨le_refl_of_number hnumber, fun limit hsome => by cases hsome⟩
  | some limit =>
      by_cases hexceeds : limit < plan.inputOf layer sweep * plan.weightScale layer
      · simp only [hexceeds, if_true]
        refine ⟨le_of_lt' hexceeds, fun limit' hsome hlimit' => ?_⟩
        obtain rfl := Option.some.inj hsome
        exact le_refl_of_number hlimit'
      · simp only [hlimit, hexceeds, if_false] at hnumber ⊢
        refine ⟨le_refl_of_number hnumber, fun limit' hsome hlimit' => ?_⟩
        obtain rfl := Option.some.inj hsome
        exact le_of_not_lt' hnumber hlimit' hexceeds

/-- The output of a weighted layer is the product of its input and weight scales or its limit. -/
theorem limited_cases (plan : SweepPlan) (layer : Layer) (sweep : Sweep) :
    (plan.limited layer (plan.inputOf layer sweep) sweep).2 =
        plan.inputOf layer sweep * plan.weightScale layer ∨
      plan.outputLimit? sweep layer.id =
        some (plan.limited layer (plan.inputOf layer sweep) sweep).2 := by
  unfold limited
  cases hlimit : plan.outputLimit? sweep layer.id with
  | none => exact Or.inl rfl
  | some limit =>
      by_cases hexceeds : limit < plan.inputOf layer sweep * plan.weightScale layer
      · exact Or.inr (by simp [hexceeds])
      · exact Or.inl (by simp [hexceeds])

/-- The output of a weighted layer, if it is a number, is at most the range-derived scale of the
layer and at most its cap. -/
theorem limited_le_limit
    (hlimited : (plan.limited layer (plan.inputOf layer sweep) sweep).2.isNaN = false)
    (hscale : plan.rangeScale? sweep layer.id = some scale ∨ sweep.cap? layer.id = some scale)
    (hnumber : scale.isNaN = false) :
    (plan.limited layer (plan.inputOf layer sweep) sweep).2 ≤ scale := by
  obtain ⟨limit, hlimit, hle⟩ := outputLimit?_le hscale hnumber
  have hunder := (limited_le plan layer sweep hlimited).2 limit hlimit (number_of_le_left hle)
  exact le_trans' hunder hle

/-! ## From one state of a run to a later one -/

/-- What the scales of the layers are derived from, apart from their inputs: graph inputs have the
same scales in both sweeps, layers the same ranges, and caps are as tight in the later one. -/
structure Tightens (plan : SweepPlan) (sweep final : Sweep) : Prop where
  given : ∀ {id layer}, plan.network.layer? id = some layer → layer.kind = .input →
    (final.table.get id).input.scale?.getD plan.defaultScale =
      (sweep.table.get id).input.scale?.getD plan.defaultScale
  range : ∀ id, plan.rangeScale? final id = plan.rangeScale? sweep id
  cap_le : ∀ {id cap}, sweep.cap? id = some cap →
    ∃ tight, final.cap? id = some tight ∧ tight ≤ cap

/-- A run whose caps are numbers tightens them, and keeps the rest. -/
theorem Reaches.tightens (hplan : plan.Ordered) (h : plan.Consistent k sweep)
    (hcaps : ∀ {id cap}, sweep.cap? id = some cap → cap.isNaN = false)
    (hreaches : plan.Reaches sweep final) : plan.Tightens sweep final where
  given := hreaches.given hplan h
  range := hreaches.rangeScale? hplan h
  cap_le := by
    intro id cap hcap
    obtain ⟨tight, htight, rfl | hlt⟩ := hreaches.cap_tighter hplan h hcap
    · exact ⟨tight, htight, le_refl_of_number (hcaps hcap)⟩
    · exact ⟨tight, htight, le_of_lt' hlt⟩

/-- A scale that was capped to a number is capped to at most that later on, even one that is no
number itself. -/
theorem Tightens.capped_le (h : plan.Tightens sweep final) (hle : scale ≤ other ∨ scale = other)
    (hnumber : (sweep.capped id other).isNaN = false) :
    final.capped id scale ≤ sweep.capped id other := by
  rcases hle with hle | rfl
  · exact capped_mono h.cap_le hle
  cases scale with
  | number => exact capped_mono h.cap_le (le_refl_of_number rfl)
  | nan =>
      cases hcap : sweep.cap? id with
      | none => simp [Sweep.capped, hcap] at hnumber
      | some cap =>
          obtain ⟨tight, htight, hle⟩ := h.cap_le hcap
          simpa [Sweep.capped, hcap, htight, minimum] using hle

/-- The output of a weighted layer, before it is capped, goes down with its input. -/
theorem Tightens.limited_le (h : plan.Tightens sweep final)
    (hinput : plan.inputOf layer final ≤ plan.inputOf layer sweep)
    (hsweep : (plan.limited layer (plan.inputOf layer sweep) sweep).2.isNaN = false)
    (hfinal : (plan.limited layer (plan.inputOf layer final) final).2.isNaN = false) :
    (plan.limited layer (plan.inputOf layer final) final).2 ≤
      (plan.limited layer (plan.inputOf layer sweep) sweep).2 := by
  rcases limited_cases plan layer sweep with hcase | hlimit
  · have hproduct := (SweepPlan.limited_le plan layer final hfinal).1
    rw [hcase] at hsweep ⊢
    have hgrows := mul_le_mul_of_unsigned (plan.unsigned_weightScale layer) hinput
      (number_of_le_right hproduct) hsweep
    exact le_trans' hproduct hgrows
  · -- The limit was the range-derived scale, which stays, or the cap, which tightens.
    rcases outputLimit?_cases hlimit with hrange | hcap
    · exact limited_le_limit hfinal (Or.inl ((h.range layer.id).trans hrange)) hsweep
    · obtain ⟨tight, htight, hle⟩ := h.cap_le hcap
      exact le_trans' (limited_le_limit hfinal (Or.inr htight) (number_of_le_left hle)) hle

/-- The output of a layer without weights, before it is capped, goes down with its input or does not
depend on it. -/
theorem Tightens.plainOutput_le (h : plan.Tightens sweep final)
    (hinput : plan.inputOf layer final ≤ plan.inputOf layer sweep) :
    plan.plainOutput layer (plan.inputOf layer final) final ≤
        plan.plainOutput layer (plan.inputOf layer sweep) sweep ∨
      plan.plainOutput layer (plan.inputOf layer final) final =
        plan.plainOutput layer (plan.inputOf layer sweep) sweep := by
  unfold plainOutput
  rw [h.range layer.id]
  split
  · exact Or.inr rfl
  · rename_i range _ _
    have hinputs := number_of_le_left hinput
    rcases minimum_cases (plan.inputOf layer sweep) range with hmin | hmin
    · rw [hmin]
      exact Or.inl (le_trans' (minimum_le_left hinputs) hinput)
    · -- A minimum with a number is a number, so the range-derived scale is one.
      have hnumber := isNaN_minimum (a := plan.inputOf layer sweep) (b := range)
      rw [number_of_le_right hinput, Bool.false_and, hmin] at hnumber
      rw [hmin]
      exact Or.inl (minimum_le_right hnumber)
  · exact Or.inl hinput

/-- The scales that are derived for a layer go down with the scale at which its inputs arrive. -/
theorem Tightens.scalesFor_le (h : plan.Tightens sweep final)
    (hlayer : plan.network.layer? layer.id = some layer)
    (hinput : layer.kind ≠ .input → layer.kind ≠ .memory →
      plan.inputOf layer final ≤ plan.inputOf layer sweep)
    (hnumber : (plan.scalesFor layer sweep).output.isNaN = false)
    (hbiases : layer.kind.hasWeights = true →
      (plan.limited layer (plan.inputOf layer sweep) sweep).2.isNaN = false ∧
        (plan.limited layer (plan.inputOf layer final) final).2.isNaN = false) :
    (plan.scalesFor layer final).input ≤ (plan.scalesFor layer sweep).input ∧
      (plan.scalesFor layer final).output ≤ (plan.scalesFor layer sweep).output := by
  by_cases hkind : layer.kind = .input
  · unfold scalesFor at hnumber ⊢
    simp only [hkind, h.given hlayer hkind] at hnumber ⊢
    exact ⟨le_refl_of_number hnumber, le_refl_of_number hnumber⟩
  by_cases hmemory : layer.kind = .memory
  · unfold scalesFor at hnumber ⊢
    simp only [hmemory, h.range] at hnumber ⊢
    have hle := h.capped_le (Or.inr rfl) hnumber
    exact ⟨hle, hle⟩
  have hinput := hinput hkind hmemory
  cases hweights : layer.kind.hasWeights with
  | true =>
      rw [scalesFor_of_weighted hweights] at hnumber ⊢
      rw [scalesFor_of_weighted hweights]
      obtain ⟨hbias, hbias'⟩ := hbiases hweights
      have hlimited := h.limited_le hinput hbias hbias'
      exact ⟨hinput, h.capped_le (Or.inl hlimited) hnumber⟩
  | false =>
      rw [scalesFor_of_plain hkind hmemory hweights] at hnumber ⊢
      rw [scalesFor_of_plain hkind hmemory hweights]
      exact ⟨hinput, h.capped_le (h.plainOutput_le hinput) hnumber⟩

/-! ## Range-derived scales and positive sources -/

/-- A layer that chooses its own scale without weights does not exceed its range-derived one. -/
theorem output_le_rangeScale (hkind : layer.kind ∈ [.activation, .eltwise, .memory])
    (hscale : plan.rangeScale? sweep layer.id = some scale) (hnumber : scale.isNaN = false) :
    (plan.scalesFor layer sweep).output ≤ scale := by
  simp only [List.mem_cons, List.not_mem_nil, or_false] at hkind
  unfold scalesFor plainOutput
  rcases hkind with hkind | hkind | hkind
  · simp only [hkind, hscale, Kind.hasWeights, Bool.false_eq_true, if_false]
    exact capped_le scale hnumber
  · simp only [hkind, hscale, Kind.hasWeights, Bool.false_eq_true, if_false]
    have hmin : ((plan.inputOf layer sweep).minimum scale).isNaN = false := by
      simp [isNaN_minimum, hnumber]
    exact le_trans' (capped_le _ hmin) (minimum_le_right hnumber)
  · simp only [hkind, hscale, Option.getD_some]
    exact capped_le scale hnumber

/-- The output scale of a layer that chooses its own does not exceed its range-derived one, unless
the layer has weights and its input scale times its weight scale is not a number. -/
theorem output_le_of_canRescale (hkind : layer.kind.canRescale = true)
    (hscale : plan.rangeScale? sweep layer.id = some scale) (hnumber : scale.isNaN = false) :
    (plan.scalesFor layer sweep).output ≤ scale ∨ layer.kind.hasWeights = true ∧
      (plan.inputOf layer sweep * plan.weightScale layer).isNaN = true := by
  cases hweights : layer.kind.hasWeights with
  | false =>
      have hplain : layer.kind ∈ [.activation, .eltwise, .memory] := by
        cases hlayer : layer.kind <;>
          simp_all [Kind.canRescale, Kind.altersRange, Kind.hasWeights]
      exact Or.inl (output_le_rangeScale hplain hscale hnumber)
  | true =>
      cases hlimited : (plan.limited layer (plan.inputOf layer sweep) sweep).2.isNaN with
      | false =>
          rw [scalesFor_of_weighted hweights]
          have hunder := limited_le_limit hlimited (Or.inl hscale) hnumber
          exact Or.inl (le_trans' (capped_le _ hlimited) hunder)
      | true =>
          -- The limit is a number, so it is the product that is none.
          rcases limited_cases plan layer sweep with hproduct | hlimit
          · exact Or.inr ⟨rfl, hproduct ▸ hlimited⟩
          · obtain ⟨limit, hlimit', hle⟩ := outputLimit?_le (Or.inl hscale) hnumber
            obtain rfl := Option.some.inj (hlimit'.symm.trans hlimit)
            simp [number_of_le_left hle] at hlimited

/-- The scales that a network takes from elsewhere than its inputs are positive: the products of
input and weight scales that the outputs of weighted layers start from, and the range-derived scales
of the layers that choose their own. -/
structure PositiveSources (plan : SweepPlan) (final : Sweep) : Prop where
  weighted : ∀ {id layer}, plan.network.layer? id = some layer → layer.kind.hasWeights = true →
    .zero < plan.inputOf layer final * plan.weightScale layer
  ranged : ∀ {id layer scale}, plan.network.layer? id = some layer →
    layer.kind.canRescale = true →
    plan.rangeScale? final layer.id = some scale → .zero < scale

/-- The output of a weighted layer is a number if the product that it starts from is one. -/
theorem Sound.isNaN_limited (hplan : plan.Standard) (h : plan.Sound k sweep)
    (hproduct : (plan.inputOf layer sweep * plan.weightScale layer).isNaN = false) :
    (plan.limited layer (plan.inputOf layer sweep) sweep).2.isNaN = false := by
  rcases limited_cases plan layer sweep with hcase | hlimit
  · rwa [hcase]
  · rcases outputLimit?_cases hlimit with hscale | hcap
    · exact Edge.rangeScale?_number hplan.rule hscale
    · exact (h.caps hcap).1

/-- What is known of an earlier and of the final state of one sweep. -/
structure Follows (plan : SweepPlan) (k : Nat) (sweep final : Sweep) : Prop where
  sound : plan.Sound k sweep
  reaches : plan.Reaches sweep final
  final_sound : plan.Sound plan.network.size final
  sources : plan.PositiveSources final

/-- Up to the final state caps tighten, and the rest is kept. -/
theorem Follows.tightens (hplan : plan.Standard) (h : plan.Follows k sweep final) :
    plan.Tightens sweep final :=
  h.reaches.tightens hplan.toOrdered h.sound.toConsistent fun hcap => (h.sound.caps hcap).1

/-- The range-derived scales of layers that choose their own are positive. -/
theorem Follows.rangeScale_pos (hplan : plan.Standard) (h : plan.Follows k sweep final)
    (hlayer : plan.network.layer? id = some layer) (hkind : layer.kind.canRescale = true)
    (hscale : plan.rangeScale? sweep layer.id = some scale) : .zero < scale :=
  h.sources.ranged hlayer hkind (((h.tightens hplan).range layer.id).trans hscale)

/-- The product that the output of a weighted layer starts from is positive, as it is at the end. -/
theorem Follows.product_pos (h : plan.Follows k sweep final)
    (hlayer : plan.network.layer? id = some layer) (hkind : layer.kind.hasWeights = true)
    (hinput : .zero < plan.inputOf layer sweep)
    (hle : plan.inputOf layer final ≤ plan.inputOf layer sweep)
    (hunsigned : (plan.inputOf layer final).Unsigned) :
    .zero < plan.inputOf layer sweep * plan.weightScale layer := by
  have hlast := h.sources.weighted hlayer hkind
  -- No run changes the weight scale, so it is positive all along.
  have hweights := pos_of_mul_pos hunsigned (plan.unsigned_weightScale layer) hlast
  exact lt_of_lt_of_le' hlast (mul_le_mul_left' hunsigned (unsigned_of_pos hinput)
    (unsigned_of_pos hweights) hle (number_of_lt_right hlast) (isNaN_mul_of_pos hinput hweights))

/-- The output of a weighted layer is positive before capping if the product that it starts from
is. -/
theorem Follows.limited_pos (hplan : plan.Standard) (h : plan.Follows k sweep final)
    (hcaps : ∀ {id cap}, sweep.cap? id = some cap → .zero < cap)
    (hlayer : plan.network.layer? id = some layer) (hkind : layer.kind.hasWeights = true)
    (hproduct : .zero < plan.inputOf layer sweep * plan.weightScale layer) :
    .zero < (plan.limited layer (plan.inputOf layer sweep) sweep).2 := by
  rcases limited_cases plan layer sweep with hcase | hlimit
  · rwa [hcase]
  · rcases outputLimit?_cases hlimit with hscale | hcap
    · exact h.rangeScale_pos hplan hlayer (Kind.canRescale_of_hasWeights hkind) hscale
    · exact hcaps hcap

/-- The output of a layer without weights is positive before capping if its input is. -/
theorem Follows.plainOutput_pos (hplan : plan.Standard) (h : plan.Follows k sweep final)
    (hlayer : plan.network.layer? id = some layer) (hinput : .zero < plan.inputOf layer sweep) :
    .zero < plan.plainOutput layer (plan.inputOf layer sweep) sweep := by
  unfold plainOutput
  split
  · rename_i range hkind hrange
    exact h.rangeScale_pos hplan hlayer (by rw [hkind]; rfl) hrange
  · rename_i range hkind hrange
    have hpositive := h.rangeScale_pos hplan hlayer (by rw [hkind]; rfl) hrange
    exact minimum_of_both (p := (.zero < ·)) hinput hpositive
  · exact hinput

/-- A layer whose inputs arrive at a positive scale, and end at no larger one, derives a positive
output scale as long as caps are positive. -/
theorem Follows.scalesFor_pos (hplan : plan.Standard) (h : plan.Follows k sweep final)
    (hcaps : ∀ {id cap}, sweep.cap? id = some cap → .zero < cap)
    (hlayer : plan.network.layer? layer.id = some layer)
    (hinput : .zero < plan.inputOf layer sweep)
    (hle : plan.inputOf layer final ≤ plan.inputOf layer sweep)
    (hunsigned : (plan.inputOf layer final).Unsigned) :
    .zero < (plan.scalesFor layer sweep).output := by
  by_cases hkind : layer.kind = .input
  · unfold scalesFor
    simp only [hkind]
    exact (h.sound.given_getD hplan hlayer hkind).1
  by_cases hmemory : layer.kind = .memory
  · unfold scalesFor
    simp only [hmemory]
    refine capped_pos hcaps ?_
    cases hscale : plan.rangeScale? sweep layer.id with
    | none => exact hplan.zero_lt_default
    | some scale => exact h.rangeScale_pos hplan hlayer (by rw [hmemory]; rfl) hscale
  cases hweights : layer.kind.hasWeights with
  | true =>
      rw [scalesFor_of_weighted hweights]
      have hproduct := h.product_pos hlayer hweights hinput hle hunsigned
      exact capped_pos hcaps (h.limited_pos hplan hcaps hlayer hweights hproduct)
  | false =>
      rw [scalesFor_of_plain hkind hmemory hweights]
      exact capped_pos hcaps (h.plainOutput_pos hplan hlayer hinput)

/-- As long as caps are positive, so are the output scales of the processed layers, and they end at
most where they are now. -/
theorem Follows.output_le (hplan : plan.Standard) (h : plan.Follows k sweep final)
    (hcaps : ∀ {id cap}, sweep.cap? id = some cap → .zero < cap) (hid : id < k) :
    .zero < sweep.outputScale id ∧ final.outputScale id ≤ sweep.outputScale id := by
  have hsize := h.sound.atLayer.le_size
  refine hplan.formed.induct hsize id hid fun {id layer} hlayer hid hbefore => ?_
  have hsettled := h.sound.settled hlayer hid
  have hlast := h.final_sound.settled hlayer (hid.trans_le hsize)
  have hinput := inputOf_pos hplan fun p hp => (hbefore p hp).1
  have hinput_le : plan.inputOf layer final ≤ plan.inputOf layer sweep :=
    inputOf_mono (fun _ => number_of_lt_right hplan.zero_lt_default) fun p hp => (hbefore p hp).2
  have hunsigned := plan.unsigned_inputOf hplan fun p hp =>
    h.final_sound.unsigned_output hplan
      ((hplan.formed.inputs_lt hlayer p hp).trans (hid.trans_le hsize))
  obtain rfl := hplan.formed.id_eq hlayer
  rw [hsettled.output_eq, hlast.output_eq]
  have hpositive := h.scalesFor_pos hplan hcaps hlayer hinput hinput_le hunsigned
  refine ⟨hpositive, ((h.tightens hplan).scalesFor_le hlayer (fun _ _ => hinput_le)
    (number_of_lt_right hpositive) fun hkind => ⟨?_, ?_⟩).2⟩
  · exact h.sound.isNaN_limited hplan
      (number_of_lt_right (h.product_pos hlayer hkind hinput hinput_le hunsigned))
  · exact h.final_sound.isNaN_limited hplan
      (number_of_lt_right (h.sources.weighted hlayer hkind))

/-- The caps that the next layer asks for are positive. -/
theorem Follows.capFor_pos (hplan : plan.Standard) (h : plan.Follows k sweep final)
    (hcaps : ∀ {id cap}, sweep.cap? id = some cap → .zero < cap)
    (hlayer : plan.network.layer? k = some layer) {cap : Single}
    (hcap : plan.CapFor layer sweep cap) : .zero < cap := by
  rcases hcap.2 with hleast | ⟨hkind, hlimit⟩
  · obtain ⟨p, hp, rfl⟩ := List.mem_map.1 (isSmallest_of_smallest? hleast).1
    exact (h.output_le hplan hcaps (hplan.formed.inputs_lt hlayer p hp)).1
  · rcases outputLimit?_cases hlimit with hscale | hown
    · exact h.rangeScale_pos hplan hlayer (Kind.canRescale_of_hasWeights hkind) hscale
    · exact hcaps hown

/-- Along a run that ends with positive sources, all caps are positive. -/
theorem caps_pos (hplan : plan.Standard) (hstart : plan.Sound k start)
    (hnone : ∀ id, start.cap? id = none) (hsound : plan.Sound plan.network.size final)
    (hsources : plan.PositiveSources final) (hbefore : plan.Reaches start sweep)
    (hafter : plan.Reaches sweep final) :
    ∀ {id cap}, sweep.cap? id = some cap → .zero < cap := by
  induction hbefore with
  | refl =>
      intro id cap hcap
      rw [hnone id] at hcap
      cases hcap
  | @tail middle last hbefore hstep ih =>
      have hreaches : plan.Reaches middle final := .head hstep hafter
      obtain ⟨k', hmiddle⟩ := hstart.reaches hplan hbefore
      have hfollows : plan.Follows k' middle final := ⟨hmiddle, hreaches, hsound, hsources⟩
      -- A cap after the step is one from before or one that the derived layer has asked for.
      intro id cap hcap
      rcases hmiddle.toConsistent.step_cap hplan.toOrdered hstep hcap with
        hold | ⟨layer, hlayer, hnew⟩
      · exact ih hreaches hold
      · exact hfollows.capFor_pos hplan (ih hreaches) hlayer hnew

end SweepPlan

end LayerQuant
