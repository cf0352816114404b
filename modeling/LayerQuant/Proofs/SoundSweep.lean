import Mathlib
import LayerQuant.Proofs.SweepRun

/-!
# Sweeps with a usable rule

With a usable rule no scale gets a sign, and the caps that layers ask for are numbers without one
(`Sound`). The steps of a sweep keep this beside what they settle (`Sound.step`), so caps compare as
numbers along a run (`Reaches.cap_le`). Read `Sound.unsigned_output` first: the order of the scales
rests on it.
-/

namespace LayerQuant

namespace SweepPlan

variable {plan : SweepPlan} {sweep after final : Sweep} {layer : Layer} {k id : Nat}

/-- What a sweep with a usable rule keeps beyond that: caps are numbers without a sign, and the
graph inputs have positive finite scales if they have any. -/
structure Sound (plan : SweepPlan) (k : Nat) (sweep : Sweep) : Prop
    extends plan.Consistent k sweep where
  caps : ∀ {id cap}, sweep.cap? id = some cap → cap.isNaN = false ∧ cap.Unsigned
  given : ∀ {id layer scale}, plan.network.layer? id = some layer → layer.kind = .input →
    (sweep.table.get id).input.scale? = some scale → .zero < scale ∧ scale.isFinite = true

/-- The scale that a graph input has or gets, which is the default, is positive and finite. -/
theorem Sound.given_getD (hplan : plan.Standard) (h : plan.Sound k sweep)
    (hlayer : plan.network.layer? id = some layer) (hkind : layer.kind = .input) :
    .zero < (sweep.table.get id).input.scale?.getD plan.defaultScale ∧
      ((sweep.table.get id).input.scale?.getD plan.defaultScale).isFinite = true := by
  cases hscale : (sweep.table.get id).input.scale? with
  | none => exact ⟨hplan.zero_lt_default, hplan.default_finite⟩
  | some scale => exact h.given hlayer hkind hscale

/-! ## Scales have no sign -/

/-- What holds of a scale and of the cap of a layer holds of the capped scale. -/
theorem capped_of {p : Single → Prop} {scale : Single} (hscale : p scale)
    (hcaps : ∀ {cap}, sweep.cap? id = some cap → p cap) : p (sweep.capped id scale) := by
  unfold Sweep.capped
  cases hcap : sweep.cap? id with
  | none => exact hscale
  | some cap => exact Binary.minimum_of_both hscale (hcaps hcap)

theorem unsigned_capped (hcaps : ∀ {cap}, sweep.cap? id = some cap → cap.Unsigned) {scale : Single}
    (hscale : scale.Unsigned) : (sweep.capped id scale).Unsigned :=
  capped_of (p := Binary.Unsigned) hscale hcaps

/-- The weight scale of a layer has no sign. -/
theorem unsigned_weightScale (plan : SweepPlan) (layer : Layer) :
    (plan.weightScale layer).Unsigned := by
  have hlargest : layer.maxAbsWeight.Unsigned := by
    unfold Layer.maxAbsWeight
    generalize layer.weights.getD [] = weights
    have hfold : ∀ (weights : List Single) (start : Single), start.Unsigned →
        (weights.foldl (fun largest w => largest.maximum w.abs) start).Unsigned := by
      intro weights
      induction weights with
      | nil => exact fun _ hstart => hstart
      | cons w rest ih =>
          exact fun start hstart => ih _ (Binary.unsigned_maximum hstart Binary.unsigned_abs)
    exact hfold weights .zero trivial
  have hprecision : plan.precision.maxWeight.Unsigned := by
    cases plan.precision <;> trivial
  unfold weightScale
  dsimp only
  split
  · exact Binary.unsigned_div hprecision hlargest
  · trivial

/-- A limit is the range-derived scale of the layer or its cap. -/
theorem outputLimit?_cases {limit : Single} (h : plan.outputLimit? sweep id = some limit) :
    plan.rangeScale? sweep id = some limit ∨ sweep.cap? id = some limit := by
  have hmem := (Binary.isSmallest_of_smallest? h).1
  simp only [List.reduceOption_mem_iff, List.mem_cons, List.not_mem_nil, or_false] at hmem
  exact hmem.imp Eq.symm Eq.symm

theorem unsigned_outputLimit (hplan : plan.Standard)
    (hcaps : ∀ {cap}, sweep.cap? id = some cap → cap.Unsigned) {limit : Single}
    (h : plan.outputLimit? sweep id = some limit) : limit.Unsigned := by
  rcases outputLimit?_cases h with hrange | hcap
  · exact (Edge.rangeScale?_usable hplan.rule hrange).1
  · exact hcaps hcap

theorem unsigned_inputOf (hplan : plan.Standard)
    (h : ∀ p ∈ layer.inputs, (sweep.outputScale p).Unsigned) :
    (plan.inputOf layer sweep).Unsigned := by
  unfold inputOf
  cases hleast : Binary.smallest? (layer.inputs.map sweep.outputScale) with
  | none => exact Binary.unsigned_of_pos hplan.zero_lt_default
  | some least =>
      obtain ⟨p, hp, rfl⟩ := List.mem_map.1 (Binary.isSmallest_of_smallest? hleast).1
      exact h p hp

/-- Both scales of a weighted layer have no sign if its input has none. -/
theorem unsigned_limited (hplan : plan.Standard)
    (hcaps : ∀ {cap}, sweep.cap? layer.id = some cap → cap.Unsigned) {input : Single}
    (hinput : input.Unsigned) :
    (plan.limited layer input sweep).1.Unsigned ∧ (plan.limited layer input sweep).2.Unsigned := by
  have hweights := plan.unsigned_weightScale layer
  have hproduct := Binary.unsigned_mul hinput hweights
  unfold limited
  cases hlimit : plan.outputLimit? sweep layer.id with
  | none => exact ⟨hweights, hproduct⟩
  | some limit =>
      have hunsigned := unsigned_outputLimit hplan hcaps hlimit
      dsimp only
      split
      · exact ⟨Binary.unsigned_div hunsigned hinput, hunsigned⟩
      · exact ⟨hweights, hproduct⟩

/-- The output scale that is derived for a layer has no sign if those of its inputs have none. -/
theorem Sound.unsigned_scalesFor (hplan : plan.Standard) (h : plan.Sound k sweep)
    (hlayer : plan.network.layer? id = some layer)
    (hinputs : ∀ p ∈ layer.inputs, (sweep.outputScale p).Unsigned) :
    (plan.scalesFor layer sweep).output.Unsigned := by
  have hdefault := Binary.unsigned_of_pos hplan.zero_lt_default
  have hid := hplan.formed.id_eq hlayer
  have hcaps : ∀ {cap}, sweep.cap? layer.id = some cap → cap.Unsigned :=
    fun hcap => (h.caps hcap).2
  have hrange : ∀ {scale}, plan.rangeScale? sweep layer.id = some scale → scale.Unsigned :=
    fun hscale => (Edge.rangeScale?_usable hplan.rule hscale).1
  by_cases hinput : layer.kind = .input
  · unfold scalesFor
    simp only [hinput, hid]
    exact Binary.unsigned_of_pos (h.given_getD hplan hlayer hinput).1
  by_cases hmemory : layer.kind = .memory
  · unfold scalesFor
    simp only [hmemory]
    refine unsigned_capped hcaps ?_
    cases hscale : plan.rangeScale? sweep layer.id with
    | none => exact hdefault
    | some scale => exact hrange hscale
  have harrives := plan.unsigned_inputOf hplan hinputs
  cases hkind : layer.kind.hasWeights with
  | true =>
      rw [scalesFor_of_weighted hkind]
      exact unsigned_capped hcaps (unsigned_limited hplan hcaps harrives).2
  | false =>
      rw [scalesFor_of_plain hinput hmemory hkind]
      refine unsigned_capped hcaps ?_
      unfold plainOutput
      split
      · rename_i hscale
        exact hrange hscale
      · rename_i hscale
        exact Binary.unsigned_minimum harrives (hrange hscale)
      · exact harrives

/-- The output scales of the processed layers have no sign. -/
theorem Sound.unsigned_output (hplan : plan.Standard) (h : plan.Sound k sweep) (hid : id < k) :
    (sweep.outputScale id).Unsigned := by
  refine hplan.formed.induct h.atLayer.le_size id hid fun {id layer} hlayer hid hinputs => ?_
  rw [← hplan.formed.id_eq hlayer, (h.settled hlayer hid).output_eq]
  exact h.unsigned_scalesFor hplan hlayer hinputs

/-- The caps that deriving the first unprocessed layer asks for are numbers without a sign. -/
theorem Sound.unsigned_capFor (hplan : plan.Standard) (h : plan.Sound k sweep)
    (hlayer : plan.network.layer? k = some layer) {cap : Single}
    (hcap : plan.CapFor layer sweep cap) : cap.isNaN = false ∧ cap.Unsigned := by
  refine ⟨hcap.1, ?_⟩
  rcases hcap.2 with hleast | ⟨_, hlimit⟩
  · obtain ⟨p, hp, rfl⟩ := List.mem_map.1 (Binary.isSmallest_of_smallest? hleast).1
    exact h.unsigned_output hplan (hplan.formed.inputs_lt hlayer p hp)
  · exact unsigned_outputLimit hplan (fun hcap => (h.caps hcap).2) hlimit

/-! ## Steps and runs -/

/-- Every step keeps the sweep sound. -/
theorem Sound.step (hplan : plan.Standard) (h : plan.Sound k sweep)
    (hstep : plan.Step sweep after) : ∃ k', plan.Sound k' after := by
  obtain ⟨k', hafter⟩ := h.toConsistent.step hplan.toOrdered hstep
  refine ⟨k', hafter, fun hcap => ?_, fun {id layer scale} hlayer hkind hscale => ?_⟩
  · rcases h.toConsistent.step_cap hplan.toOrdered hstep hcap with hold | ⟨layer, hlayer, hnew⟩
    · exact h.caps hold
    · exact h.unsigned_capFor hplan hlayer hnew
  · -- A graph input that had no scale has got the default.
    have hgiven := h.toConsistent.step_given hplan.toOrdered hstep hlayer hkind
    rw [hscale, Option.getD_some] at hgiven
    rw [hgiven]
    exact h.given_getD hplan hlayer hkind

theorem Sound.reaches (hplan : plan.Standard) (h : plan.Sound k sweep)
    (hreaches : plan.Reaches sweep final) : ∃ k', plan.Sound k' final := by
  induction hreaches with
  | refl => exact ⟨k, h⟩
  | tail _ hstep ih =>
      obtain ⟨k', hsound⟩ := ih
      exact hsound.step hplan hstep

/-- A table gives positive finite scales if each of its entries does. -/
theorem given_of_forall {table : EdgeTable}
    (h : ∀ edges ∈ table.layers, ∀ scale ∈ edges.input.scale?,
      .zero < scale ∧ scale.isFinite = true) {scale : Single}
    (hscale : (table.get id).input.scale? = some scale) :
    .zero < scale ∧ scale.isFinite = true := by
  unfold EdgeTable.get at hscale
  rw [Array.getD_eq_getD_getElem?] at hscale
  cases hedges : table.layers[id]? with
  | none =>
      rw [hedges] at hscale
      cases hscale
  | some edges =>
      rw [hedges] at hscale
      exact h edges (Array.mem_of_getElem? hedges) scale hscale

/-- A sweep starts with nothing settled. -/
theorem Sound.start {table : EdgeTable} (hsize : plan.network.size ≤ table.size)
    (hgiven : ∀ {id layer scale}, plan.network.layer? id = some layer → layer.kind = .input →
      (table.get id).input.scale? = some scale → .zero < scale ∧ scale.isFinite = true) :
    plan.Sound 0 (.start plan.network table) where
  toConsistent := .start hsize
  caps := by
    intro id cap hcap
    rw [Sweep.cap?_start] at hcap
    cases hcap
  given := hgiven

/-- Along a run caps only tighten. -/
theorem Reaches.cap_le (hplan : plan.Standard) (h : plan.Sound k sweep)
    (hreaches : plan.Reaches sweep final) {cap : Single} (hcap : sweep.cap? id = some cap) :
    ∃ tight, final.cap? id = some tight ∧ tight ≤ cap := by
  obtain ⟨tight, htight, rfl | hlt⟩ := hreaches.cap_tighter hplan.toOrdered h.toConsistent hcap
  · exact ⟨tight, htight, Binary.le_refl_of_number (h.caps hcap).1⟩
  · exact ⟨tight, htight, Binary.le_of_lt' hlt⟩

/-- A run that succeeds is a chain of steps after which every layer is settled. -/
theorem run_reaches {table : EdgeTable} (hplan : plan.Standard)
    (hgiven : ∀ {id layer scale}, plan.network.layer? id = some layer → layer.kind = .input →
      (table.get id).input.scale? = some scale → .zero < scale ∧ scale.isFinite = true)
    (h : plan.run (.start plan.network table) = (final, .ok ())) :
    plan.Sound 0 (.start plan.network table) ∧
      plan.Reaches (.start plan.network table) final ∧ plan.Sound plan.network.size final := by
  obtain ⟨hsize, hreaches, hconsistent, _⟩ := run_consistent hplan.toOrdered h
  have hstart := Sound.start hsize hgiven
  obtain ⟨k, hsound⟩ := hstart.reaches hplan hreaches
  obtain rfl := hsound.atLayer.unique hconsistent.atLayer
  exact ⟨hstart, hreaches, hsound⟩

end SweepPlan

end LayerQuant
