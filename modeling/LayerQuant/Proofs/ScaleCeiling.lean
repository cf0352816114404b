import Mathlib
import LayerQuant.Proofs.UncappedScales

/-!
# The ceiling above the scales

Without caps, the scales of a sweep come above those that it starts from only by weights. So a
ceiling over the starting scales that rises by one factor for every weighted layer stays above all
of them (`Bounded.output_le`). Together with the floor below, it tells from a few numbers that a
table is in range (`Bounded.inRange`).
-/

namespace LayerQuant

open Binary

namespace SweepPlan

variable {plan : SweepPlan} {sweep : Sweep} {layer : Layer} {table : EdgeTable}
  {id restarts m n : Nat} {floor factor ceiling growth : Single}

/-- All scales that a sweep starts from lie between the floor and the ceiling, and all weight scales
between the factor and the growth. On their way through the weighted layers, which the floor takes
once more for every restart, the floor does not vanish, the ceiling stays finite, and dividing one by
the other does not vanish either. -/
structure Bounded (plan : SweepPlan) (table : EdgeTable) (restarts : Nat)
    (floor factor ceiling growth : Single) : Prop extends plan.Descends table floor factor where
  starts_le : ∀ scale ∈ plan.startingScales table, scale ≤ ceiling
  one_le_growth : .ofNat .single 1 ≤ growth
  growth_finite : growth.isFinite = true
  weights_le : ∀ {id layer}, plan.network.layer? id = some layer → layer.kind.hasWeights = true →
    plan.precision.fullScale layer ≤ growth
  lowest_pos : .zero < compounded floor factor ((restarts + 1) * plan.weightedCount)
  highest_finite : (compounded ceiling growth plan.weightedCount).isFinite = true
  quotient_pos : .zero < compounded floor factor ((restarts + 1) * plan.weightedCount) /
    compounded ceiling growth plan.weightedCount

/-- The ceiling is positive, being above the default scale. -/
theorem Bounded.ceiling_pos (h : plan.Bounded table restarts floor factor ceiling growth) (n : Nat) :
    .zero < compounded ceiling growth n := by
  induction n with
  | zero =>
      have hdefault : plan.defaultScale ∈ plan.startingScales table :=
        mem_startingScales.2 (Or.inl rfl)
      exact lt_of_lt_of_le' h.floor_pos (le_trans' (h.starts _ hdefault) (h.starts_le _ hdefault))
  | succ n ih => exact lt_of_lt_of_le' ih (le_mul_of_one_le ih h.one_le_growth)

/-- What is below the ceiling stays below it as it rises. -/
theorem Bounded.le_of_le (h : plan.Bounded table restarts floor factor ceiling growth)
    {scale : Single} (hmn : m ≤ n) (hle : scale ≤ compounded ceiling growth m) :
    scale ≤ compounded ceiling growth n := by
  induction n, hmn using Nat.le_induction with
  | base => exact hle
  | succ n _ ih => exact le_trans' ih (le_mul_of_one_le (h.ceiling_pos n) h.one_le_growth)

/-- A weight scale takes what is below the ceiling below where it rises to. -/
theorem Bounded.mul_le (h : plan.Bounded table restarts floor factor ceiling growth)
    (hlayer : plan.network.layer? id = some layer) (hkind : layer.kind.hasWeights = true)
    {scale : Single} (hle : scale ≤ compounded ceiling growth n) :
    scale * plan.weightScale layer ≤ compounded ceiling growth (n + 1) := by
  obtain ⟨hfactor, hfinite⟩ := h.weights hlayer hkind
  have hweights := lt_of_lt_of_le' h.factor_pos hfactor
  have hgrowth := lt_of_lt_of_le' hweights (h.weights_le hlayer hkind)
  have hceiling := h.ceiling_pos n
  have hproduct : (compounded ceiling growth n * plan.weightScale layer).isNaN = false :=
    isNaN_mul_of_isFinite (number_of_le_right hle) hweights hfinite
  have hscale : scale * plan.weightScale layer ≤
      compounded ceiling growth n * plan.weightScale layer :=
    mul_le_mul_of_unsigned (unsigned_of_pos hweights) hle
      (isNaN_mul_of_isFinite (number_of_le_left hle) hweights hfinite) hproduct
  exact le_trans' hscale (mul_le_mul_right' (unsigned_of_pos hweights) (unsigned_of_pos hgrowth)
    (unsigned_of_pos hceiling) (h.weights_le hlayer hkind) hproduct
    (isNaN_mul_of_pos hceiling hgrowth))

theorem Bounded.inputOf_le (h : plan.Bounded table restarts floor factor ceiling growth)
    (hinputs : ∀ p ∈ layer.inputs, sweep.outputScale p ≤ compounded ceiling growth n) :
    plan.inputOf layer sweep ≤ compounded ceiling growth n := by
  unfold inputOf
  cases hleast : smallest? (layer.inputs.map sweep.outputScale) with
  | none => exact h.le_of_le (Nat.zero_le n) (h.starts_le _ (mem_startingScales.2 (Or.inl rfl)))
  | some least =>
      obtain ⟨p, hp, rfl⟩ := List.mem_map.1 (isSmallest_of_smallest? hleast).1
      exact hinputs p hp

/-- Without caps, a layer whose inputs are below the ceiling derives an output scale that is, or one
that is below where the ceiling rises to if it has weights. -/
theorem Bounded.scalesFor_le (hplan : plan.Ordered)
    (h : plan.Bounded table restarts floor factor ceiling growth)
    (huncapped : plan.Uncapped table plan.network.size sweep)
    (hlayer : plan.network.layer? id = some layer)
    (hinputs : ∀ p ∈ layer.inputs, sweep.outputScale p ≤ compounded ceiling growth n) :
    (plan.scalesFor layer sweep).output ≤
      compounded ceiling growth (n + if layer.kind.hasWeights then 1 else 0) := by
  have hid := hplan.formed.id_eq hlayer
  have hfloored := huncapped.floored h.floored
  have hcaps : CapsAbove (compounded floor factor 0) sweep := huncapped.capsAbove
  have hinput := h.inputOf_le hinputs
  have hstarts : ∀ {scale : Single}, scale ∈ plan.startingScales table →
      scale ≤ compounded ceiling growth n := fun hmem =>
    h.le_of_le (Nat.zero_le n) (h.starts_le _ hmem)
  have hdefault := hstarts (mem_startingScales.2 (Or.inl rfl))
  have hrange : ∀ {scale}, plan.rangeScale? sweep layer.id = some scale →
      scale ≤ compounded ceiling growth n := by
    intro scale hscale
    rw [huncapped.rangeScale?, hid] at hscale
    exact hstarts (mem_startingScales.2 (Or.inr ⟨id, layer, hlayer, Or.inr hscale⟩))
  have hcapped : ∀ scale, sweep.capped layer.id scale = scale := fun scale => by
    unfold Sweep.capped
    rw [huncapped.cap layer.id]
  by_cases hgiven : layer.kind = .input
  · unfold scalesFor
    simp only [hgiven, hid, huncapped.given hlayer hgiven]
    cases hscale : (table.get id).input.scale? with
    | none => exact hdefault
    | some scale =>
        exact hstarts (mem_startingScales.2
          (Or.inr ⟨id, layer, hlayer, Or.inl ⟨hgiven, hscale⟩⟩))
  by_cases hmemory : layer.kind = .memory
  · unfold scalesFor
    simp only [hmemory, hcapped]
    cases hscale : plan.rangeScale? sweep layer.id with
    | none => exact hdefault
    | some scale => exact hrange hscale
  cases hkind : layer.kind.hasWeights with
  | true =>
      have hlimited := (hfloored.weighted hplan huncapped.written hcaps hlayer hkind).2
      rw [scalesFor_of_weighted hkind, hcapped]
      exact le_trans' (limited_le plan layer sweep (number_of_le_right hlimited)).1
        (h.mul_le hlayer hkind hinput)
  | false =>
      rw [scalesFor_of_plain hgiven hmemory hkind, hcapped]
      unfold plainOutput
      split
      · rename_i hscale
        exact hrange hscale
      · rename_i hscale
        exact minimum_of_both (p := (· ≤ compounded ceiling growth n)) hinput (hrange hscale)
      · exact hinput

/-- Without caps, the output of a layer is below the ceiling that the weighted layers up to it lead
to. -/
theorem Bounded.output_le (hplan : plan.Ordered)
    (h : plan.Bounded table restarts floor factor ceiling growth)
    (huncapped : plan.Uncapped table plan.network.size sweep) (hid : id < plan.network.size) :
    sweep.outputScale id ≤ compounded ceiling growth (plan.weightedBefore (id + 1)) := by
  refine hplan.formed.induct le_rfl id hid fun {id layer} hlayer hid hinputs => ?_
  rw [weightedBefore_succ hlayer]
  have houtput := (huncapped.written hlayer hid).output_eq
  rw [hplan.formed.id_eq hlayer] at houtput
  rw [houtput]
  refine h.scalesFor_le hplan huncapped hlayer fun p hp => ?_
  exact h.le_of_le (weightedBefore_mono (hplan.formed.inputs_lt hlayer p hp)) (hinputs p hp)

/-- Without caps, the input and bias scales of weighted layers lie between where the floor falls to and
where the ceiling rises to. -/
theorem Bounded.uncapped_between (hplan : plan.Ordered) (hsize : plan.network.size ≤ table.size)
    (h : plan.Bounded table restarts floor factor ceiling growth)
    (hlayer : plan.network.layer? id = some layer) (hkind : layer.kind.hasWeights = true)
    {scale : Single} (hscale : scale = ((plan.uncapped table).table.get id).input.scale ∨
      scale = ((plan.uncapped table).table.get id).bias.scale) :
    compounded floor factor ((restarts + 1) * plan.weightedCount) ≤ scale ∧
      scale ≤ compounded ceiling growth plan.weightedCount := by
  have hid := Network.lt_size hlayer
  have huncapped := uncapped_written hplan hsize
  have hwritten := huncapped.written hlayer hid
  have hfloored := huncapped.floored h.floored
  have hcaps : CapsAbove (compounded floor factor 0) (plan.uncapped table) := huncapped.capsAbove
  have hcount : plan.weightedBefore (id + 1) ≤ plan.weightedCount := weightedBefore_mono hid
  rw [weightedBefore_succ hlayer, hkind, if_pos rfl] at hcount
  have hsteps : 0 + plan.weightedBefore id + 1 ≤ (restarts + 1) * plan.weightedCount := by
    rw [Nat.zero_add, Nat.succ_mul]
    omega
  have hlowest := hfloored.inputOf (hfloored.inputs_before hplan huncapped.written hcaps hlayer)
  have hhighest : plan.inputOf layer (plan.uncapped table) ≤
      compounded ceiling growth (plan.weightedBefore id) := h.inputOf_le fun p hp => by
    have hlt := hplan.formed.inputs_lt hlayer p hp
    exact h.le_of_le (weightedBefore_mono hlt) (h.output_le hplan huncapped (hlt.trans hid))
  rw [← hplan.formed.id_eq hlayer, hwritten.arrives hkind, hwritten.bias_eq hkind] at hscale
  rcases hscale with rfl | rfl
  · exact ⟨hfloored.le_of_le (Nat.le_of_succ_le hsteps) hlowest,
      h.le_of_le (Nat.le_of_succ_le hcount) hhighest⟩
  · have hlimited := (hfloored.weighted hplan huncapped.written hcaps hlayer hkind).2
    have hproduct := (limited_le plan layer _ (number_of_le_right hlimited)).1
    exact ⟨hfloored.le_of_le hsteps hlimited,
      h.le_of_le hcount (le_trans' hproduct (h.mul_le hlayer hkind hhighest))⟩

/-- A table whose scales stay between two bounds is in range. -/
theorem Bounded.inRange (hplan : plan.Standard) (hsize : plan.network.size ≤ table.size)
    (h : plan.Bounded table restarts floor factor ceiling growth) :
    plan.InRange table restarts floor factor where
  toDescends := h.toDescends
  lowest_pos := h.lowest_pos
  outputs := by
    intro id layer hlayer hkind
    obtain ⟨hlowest, hhighest⟩ :=
      h.uncapped_between hplan.toOrdered hsize hlayer hkind (Or.inr rfl)
    exact isFinite_of_le (unsigned_of_pos (lt_of_lt_of_le' h.lowest_pos hlowest))
      h.highest_finite hhighest (unsigned_of_pos (h.ceiling_pos _))
  quotients := by
    intro id layer hlayer hkind
    obtain ⟨hlowest, hhighest⟩ :=
      h.uncapped_between hplan.toOrdered hsize hlayer hkind (Or.inl rfl)
    exact lt_of_lt_of_le' h.quotient_pos (div_anti h.lowest_pos (h.compounded_finite hplan _)
      (unsigned_of_pos (lt_of_lt_of_le' h.lowest_pos hlowest))
      (unsigned_of_pos (h.ceiling_pos _)) hhighest)

end SweepPlan

end LayerQuant
