import Mathlib
import LayerQuant.Proofs.ScaleFloor
import LayerQuant.Proofs.UsableScales

/-!
# Scales between two bounds

What a run does to the scales lies between two computations that make no restart. From above it is
the sweep that writes every layer once and caps none (`uncapped`), as caps only lower scales. From
below it is a floor that falls by one factor for every weighted layer and restart (`compounded`). If
both stay in range for the table that a run starts with (`InRange`), all scales of its end are
usable (`InRange.usableSources`).
-/

namespace LayerQuant

open Binary

namespace SweepPlan

variable {plan : SweepPlan} {sweep start final : Sweep} {layer : Layer} {table : EdgeTable}
  {k id restarts : Nat} {floor factor : Single} {low : Nat → Single} {m n : Nat}

/-! ## The sweep without caps -/

/-- Writes the scales that follow for a layer, whatever they ask of its producers. -/
def writeScales (plan : SweepPlan) (sweep : Sweep) (id : Nat) : Sweep :=
  match plan.network.layer? id with
  | some layer => sweep.settle id (plan.scalesFor layer sweep)
  | none => sweep

/-- The scales that follow for all layers from a table, without a cap on any of them. -/
def uncapped (plan : SweepPlan) (table : EdgeTable) : Sweep :=
  (List.range plan.network.size).foldl plan.writeScales (.start plan.network table)

/-- The scales of the first `k` layers are written and no layer is capped. What scales follow from is
as in the table. -/
structure Uncapped (plan : SweepPlan) (table : EdgeTable) (k : Nat) (sweep : Sweep) : Prop where
  size_eq : sweep.table.size = table.size
  cap : ∀ id, sweep.cap? id = none
  written : ∀ {id layer}, plan.network.layer? id = some layer → id < k → plan.Written layer sweep
  given : ∀ {id layer}, plan.network.layer? id = some layer → layer.kind = .input →
    (sweep.table.get id).input.scale?.getD plan.defaultScale =
      (table.get id).input.scale?.getD plan.defaultScale
  aggregated : ∀ id, (sweep.table.get id).output.aggregated? = (table.get id).output.aggregated?

/-- Writing the scales of the next layer leaves those of the layers before it in force. -/
theorem Uncapped.succ (hplan : plan.Ordered) (hsize : plan.network.size ≤ table.size)
    (h : plan.Uncapped table k sweep) (hlayer : plan.network.layer? k = some layer) :
    plan.Uncapped table (k + 1) (sweep.settle k (plan.scalesFor layer sweep)) := by
  have hk : k < sweep.table.size := h.size_eq ▸ (Network.lt_size hlayer).trans_le hsize
  have hother : ∀ {id}, id ≠ k →
      (sweep.settle k (plan.scalesFor layer sweep)).table.get id = sweep.table.get id :=
    fun hne => EdgeTable.get_modify_of_ne hne _
  have hagrees := agrees_settle hplan hlayer hk
  have hid := hplan.formed.id_eq hlayer
  refine ⟨(EdgeTable.size_modify _ _ _).trans h.size_eq, h.cap, fun {id layer'} hlayer' hlt => ?_,
    fun {id layer'} hlayer' hkind => ?_, fun id => ?_⟩
  · rcases Nat.lt_succ_iff_lt_or_eq.1 hlt with hlt | rfl
    · refine (h.written hlayer' hlt).congr
        (agrees_of_entries hplan hlayer' (fun j hj => hother (by omega)) rfl) (hother ?_)
      rw [hplan.formed.id_eq hlayer']
      exact hlt.ne
    · obtain rfl := Option.some.inj (hlayer.symm.trans hlayer')
      exact written_settle hplan hlayer hk
  · rw [← h.given hlayer' hkind]
    by_cases heq : id = k
    · subst heq
      obtain rfl := Option.some.inj (hlayer.symm.trans hlayer')
      exact hid ▸ hagrees.given hkind
    · rw [hother heq]
  · rw [← h.aggregated id]
    by_cases heq : id = k
    · subst heq
      exact hid ▸ hagrees.range
    · rw [hother heq]

/-- Every layer of the sweep without caps has the scales that follow for it. -/
theorem uncapped_written (hplan : plan.Ordered) (hsize : plan.network.size ≤ table.size) :
    plan.Uncapped table plan.network.size (plan.uncapped table) := by
  have hprefix : ∀ k ≤ plan.network.size, plan.Uncapped table k
      ((List.range k).foldl plan.writeScales (.start plan.network table)) := by
    intro k hk
    induction k with
    | zero =>
        exact ⟨rfl, Sweep.cap?_start plan.network table,
          fun _ hlt => absurd hlt (Nat.not_lt_zero _), fun _ _ => rfl, fun _ => rfl⟩
    | succ k ih =>
        obtain ⟨layer, hlayer⟩ := Network.exists_layer (Nat.lt_of_succ_le hk)
        rw [List.range_succ, List.foldl_append]
        unfold writeScales
        simp only [List.foldl_cons, List.foldl_nil, hlayer]
        exact (ih (Nat.le_of_succ_le hk)).succ hplan hsize hlayer
  exact hprefix plan.network.size le_rfl

theorem Uncapped.rangeScale? (h : plan.Uncapped table k sweep) (id : Nat) :
    plan.rangeScale? sweep id = plan.rangeScale? (.start plan.network table) id := by
  unfold SweepPlan.rangeScale? Edge.rangeScale?
  rw [h.aggregated]
  rfl

/-- What a run leads to is as the sweep without caps, but for caps. -/
theorem Uncapped.tightens (hplan : plan.Ordered) (hsize : plan.network.size ≤ table.size)
    (h : plan.Uncapped table k sweep)
    (hreaches : plan.Reaches (.start plan.network table) final) : plan.Tightens sweep final where
  given := by
    intro id layer hlayer hkind
    rw [hreaches.given hplan (.start hsize) hlayer hkind, h.given hlayer hkind]
    rfl
  range := by
    intro id
    rw [hreaches.rangeScale? hplan (.start hsize), h.rangeScale?]
  cap_le := by
    intro id cap hcap
    rw [h.cap id] at hcap
    cases hcap

theorem Uncapped.capsAbove (h : plan.Uncapped table k sweep) : CapsAbove floor sweep := by
  intro id cap hcap
  rw [h.cap id] at hcap
  cases hcap

theorem Uncapped.floored (h : plan.Uncapped table k sweep) (hfloored : plan.Floored low table) :
    plan.Floored low sweep.table := by
  have hstart : plan.Floored low (Sweep.start plan.network table).table := hfloored
  exact hstart.congr h.given h.rangeScale?

/-! ## Written sweeps above a floor -/

/-- Every layer has the scales that follow for it. -/
def AllWritten (plan : SweepPlan) (sweep : Sweep) : Prop :=
  ∀ {id layer}, plan.network.layer? id = some layer → id < plan.network.size →
    plan.Written layer sweep

/-- The inputs of a layer are above the bound that the weighted layers before it lead to. -/
theorem Floored.inputs_before (hplan : plan.Ordered) (h : plan.Floored low sweep.table)
    (hwritten : plan.AllWritten sweep) (hcaps : CapsAbove (low m) sweep)
    (hlayer : plan.network.layer? id = some layer) :
    ∀ p ∈ layer.inputs, low (m + plan.weightedBefore id) ≤ sweep.outputScale p := by
  intro p hp
  have hlt := hplan.formed.inputs_lt hlayer p hp
  exact h.le_of_le (Nat.add_le_add_left (weightedBefore_mono hlt) m)
    (h.output_succ hplan hwritten hcaps le_rfl (hlt.trans (Network.lt_size hlayer)))

/-- The product that the output of a weighted layer starts from, and the output before it is capped,
are above the next bound. -/
theorem Floored.weighted (hplan : plan.Ordered) (h : plan.Floored low sweep.table)
    (hwritten : plan.AllWritten sweep) (hcaps : CapsAbove (low m) sweep)
    (hlayer : plan.network.layer? id = some layer) (hkind : layer.kind.hasWeights = true) :
    low (m + plan.weightedBefore id + 1) ≤ plan.inputOf layer sweep * plan.weightScale layer ∧
      low (m + plan.weightedBefore id + 1) ≤
        (plan.limited layer (plan.inputOf layer sweep) sweep).2 := by
  have hinputs := h.inputs_before hplan hwritten hcaps hlayer
  exact ⟨h.weights hlayer hkind (h.inputOf hinputs),
    h.limited hplan hcaps (Nat.le_add_right m _) hlayer hkind hinputs⟩

/-- Two sweeps in which all layers are written, one with tighter caps than the other, have scales in
the same order as long as both stay above bounds. -/
theorem Tightens.output_le (hplan : plan.Standard) (h : plan.Tightens sweep final)
    (hwritten : plan.AllWritten sweep) (hwritten' : plan.AllWritten final)
    (hfloored : plan.Floored low sweep.table) (hcaps : CapsAbove (low m) sweep)
    (hfloored' : plan.Floored low final.table) (hcaps' : CapsAbove (low n) final)
    (hid : id < plan.network.size) : final.outputScale id ≤ sweep.outputScale id := by
  have hordered := hplan.toOrdered
  refine hplan.formed.induct le_rfl id hid fun {id layer} hlayer hid hinputs => ?_
  have hinput : plan.inputOf layer final ≤ plan.inputOf layer sweep :=
    inputOf_mono (fun _ => number_of_lt_right hplan.zero_lt_default) hinputs
  have hnumber := number_of_le_right (hfloored.output_succ hordered hwritten hcaps le_rfl hid)
  obtain rfl := hplan.formed.id_eq hlayer
  rw [(hwritten hlayer hid).output_eq] at hnumber ⊢
  rw [(hwritten' hlayer hid).output_eq]
  exact (h.scalesFor_le hlayer (fun _ _ => hinput) hnumber fun hkind =>
    ⟨number_of_le_right (hfloored.weighted hordered hwritten hcaps hlayer hkind).2,
      number_of_le_right (hfloored'.weighted hordered hwritten' hcaps' hlayer hkind).2⟩).2

/-! ## Tables in range -/

/-- A scale after a number of multiplications with a factor. -/
def compounded (scale factor : Single) : Nat → Single
  | 0 => scale
  | n + 1 => compounded scale factor n * factor

/-- All scales that a sweep starts from are at least the floor, and all weight scales are finite and
at least the factor, which is at most one. -/
structure Descends (plan : SweepPlan) (table : EdgeTable) (floor factor : Single) : Prop where
  floor_pos : .zero < floor
  factor_pos : .zero < factor
  factor_le : factor ≤ .ofNat .single 1
  starts : ∀ scale ∈ plan.startingScales table, floor ≤ scale
  weights : ∀ {id layer}, plan.network.layer? id = some layer → layer.kind.hasWeights = true →
    factor ≤ plan.precision.fullScale layer ∧ (plan.precision.fullScale layer).isFinite = true

/-- The table keeps the scales of every run with at most `restarts` restarts in range. The floor does
not vanish on the way down through all weighted layers and restarts, and without caps the outputs of
weighted layers stay finite, and their inputs so small that dividing the lowest scale by one does not
vanish either. -/
structure InRange (plan : SweepPlan) (table : EdgeTable) (restarts : Nat) (floor factor : Single) :
    Prop extends plan.Descends table floor factor where
  lowest_pos : .zero < compounded floor factor ((restarts + 1) * plan.weightedCount)
  outputs : ∀ {id layer}, plan.network.layer? id = some layer → layer.kind.hasWeights = true →
    ((plan.uncapped table).table.get id).bias.scale.isFinite = true
  quotients : ∀ {id layer}, plan.network.layer? id = some layer → layer.kind.hasWeights = true →
    .zero < compounded floor factor ((restarts + 1) * plan.weightedCount) /
      ((plan.uncapped table).table.get id).input.scale

/-- The factor is finite, being at most one. -/
theorem Descends.factor_finite (h : plan.Descends table floor factor) : factor.isFinite = true :=
  isFinite_of_le (unsigned_of_pos h.factor_pos) (by decide +kernel) h.factor_le unsigned_ofNat

/-- The floor stays a number without a sign on its way down. -/
theorem Descends.unsigned_compounded (h : plan.Descends table floor factor) (n : Nat) :
    (compounded floor factor n).Unsigned ∧ (compounded floor factor n).isNaN = false := by
  induction n with
  | zero => exact ⟨unsigned_of_pos h.floor_pos, number_of_lt_right h.floor_pos⟩
  | succ n ih =>
      exact ⟨unsigned_mul ih.1 (unsigned_of_pos h.factor_pos),
        isNaN_mul_of_isFinite ih.2 h.factor_pos h.factor_finite⟩

/-- The floor, falling with every weighted layer, bounds the scales of a sweep. -/
theorem Descends.floored (h : plan.Descends table floor factor) :
    plan.Floored (compounded floor factor) table := by
  refine floored_of_starts (fun n => ?_) h.starts fun {id layer n scale} hlayer hkind habove => ?_
  · obtain ⟨hunsigned, hnumber⟩ := h.unsigned_compounded n
    exact mul_le_of_le_one hunsigned hnumber h.factor_pos h.factor_le
  · obtain ⟨hunsigned, hnumber⟩ := h.unsigned_compounded n
    obtain ⟨hle, hfinite⟩ := h.weights hlayer hkind
    have hweights := lt_of_lt_of_le' h.factor_pos hle
    have hproduct := isNaN_mul_of_isFinite hnumber hweights hfinite
    have hfactor : compounded floor factor (n + 1) ≤
        compounded floor factor n * plan.weightScale layer :=
      mul_le_mul_right' (unsigned_of_pos h.factor_pos) (unsigned_of_pos hweights) hunsigned hle
        (h.unsigned_compounded (n + 1)).2 hproduct
    exact le_trans' hfactor (mul_le_mul_of_unsigned (unsigned_of_pos hweights) habove hproduct
      (isNaN_mul_of_isFinite (number_of_le_right habove) hweights hfinite))

/-- The floor is finite on its way down, being at most the default scale. -/
theorem Descends.compounded_finite (hplan : plan.Standard)
    (h : plan.Descends table floor factor) (n : Nat) :
    (compounded floor factor n).isFinite = true :=
  isFinite_of_le (h.unsigned_compounded n).1 hplan.default_finite
    (h.floored.le_of_le (Nat.zero_le n) h.floored.default_le) (unsigned_of_pos hplan.zero_lt_default)

/-! ## Where a run ends -/

/-- The sweep is the end of a run from the table, after at most `restarts` restarts. -/
structure Ended (plan : SweepPlan) (table : EdgeTable) (restarts : Nat) (final : Sweep) :
    Prop where
  size_le : plan.network.size ≤ table.size
  reaches : plan.Reaches (.start plan.network table) final
  consistent : plan.Consistent plan.network.size final
  restarts_le : final.restarts ≤ restarts

theorem Ended.written (h : plan.Ended table restarts final) : plan.AllWritten final :=
  fun hlayer hlt => (h.consistent.settled hlayer hlt).written

/-- Bounds under the table are bounds at the end, and so are they for the caps, as far down as the
restarts lead. -/
theorem Ended.floored (hplan : plan.Ordered) (hend : plan.Ended table restarts final)
    (h : plan.Floored low table) :
    plan.Floored low final.table ∧
      CapsAbove (low (final.restarts * plan.weightedCount)) final := by
  have hconsistent : plan.Consistent 0 (.start plan.network table) := .start hend.size_le
  have hstart : plan.Floored low (Sweep.start plan.network table).table := h
  exact ⟨hstart.reaches hplan hconsistent hend.reaches,
    hstart.caps hplan hconsistent (Sweep.cap?_start plan.network table) hend.reaches⟩

/-- The restarts and the layers up to a weighted one lead down by no more steps than all restarts and
all weighted layers. -/
theorem Ended.steps_le (hend : plan.Ended table restarts final)
    (hlayer : plan.network.layer? id = some layer) (hkind : layer.kind.hasWeights = true) :
    final.restarts * plan.weightedCount + plan.weightedBefore id + 1 ≤
      (restarts + 1) * plan.weightedCount := by
  have hcount : plan.weightedBefore (id + 1) ≤ plan.weightedCount :=
    weightedBefore_mono (Network.lt_size hlayer)
  rw [weightedBefore_succ hlayer, hkind, if_pos rfl] at hcount
  have hbefore := Nat.mul_le_mul_right plan.weightedCount hend.restarts_le
  rw [Nat.succ_mul]
  omega

/-- At the end the input scale of a weighted layer, the product that its output starts from, and the
output before it is capped are at least the lowest scale. -/
theorem InRange.lowest_le (hplan : plan.Ordered) (h : plan.InRange table restarts floor factor)
    (hend : plan.Ended table restarts final) (hlayer : plan.network.layer? id = some layer)
    (hkind : layer.kind.hasWeights = true) {lowest : Single}
    (hlowest : compounded floor factor ((restarts + 1) * plan.weightedCount) = lowest) :
    lowest ≤ plan.inputOf layer final ∧
      lowest ≤ plan.inputOf layer final * plan.weightScale layer ∧
      lowest ≤ (plan.limited layer (plan.inputOf layer final) final).2 := by
  subst hlowest
  obtain ⟨hfloored, hcaps⟩ := hend.floored hplan h.floored
  have hsteps := hend.steps_le hlayer hkind
  have hinputs := hfloored.inputs_before hplan hend.written hcaps hlayer
  obtain ⟨hproduct, hlimited⟩ := hfloored.weighted hplan hend.written hcaps hlayer hkind
  exact ⟨hfloored.le_of_le (Nat.le_of_succ_le hsteps) (hfloored.inputOf hinputs),
    hfloored.le_of_le hsteps hproduct, hfloored.le_of_le hsteps hlimited⟩

/-- At the end the input scale of a weighted layer and its output before it is capped are at most
those of the sweep without caps, which are numbers. -/
theorem InRange.le_uncapped (hplan : plan.Standard) (h : plan.InRange table restarts floor factor)
    (hend : plan.Ended table restarts final) (hlayer : plan.network.layer? id = some layer)
    (hkind : layer.kind.hasWeights = true) :
    plan.inputOf layer final ≤ ((plan.uncapped table).table.get id).input.scale ∧
      (plan.limited layer (plan.inputOf layer final) final).2 ≤
        ((plan.uncapped table).table.get id).bias.scale := by
  have hordered := hplan.toOrdered
  have hid := Network.lt_size hlayer
  have huncapped := uncapped_written hordered hend.size_le
  have htightens := huncapped.tightens hordered hend.size_le hend.reaches
  obtain ⟨hfloored, hcaps⟩ := hend.floored hordered h.floored
  have hfloored' := huncapped.floored h.floored
  have hcaps' : CapsAbove (compounded floor factor 0) (plan.uncapped table) := huncapped.capsAbove
  have hinput : plan.inputOf layer final ≤ plan.inputOf layer (plan.uncapped table) :=
    inputOf_mono (fun _ => number_of_lt_right hplan.zero_lt_default) fun p hp =>
      htightens.output_le hplan huncapped.written hend.written hfloored' hcaps' hfloored hcaps
        ((hplan.formed.inputs_lt hlayer p hp).trans hid)
  have hlimited := htightens.limited_le hinput
    (number_of_le_right (hfloored'.weighted hordered huncapped.written hcaps' hlayer hkind).2)
    (number_of_le_right (hfloored.weighted hordered hend.written hcaps hlayer hkind).2)
  have hwritten := huncapped.written hlayer hid
  rw [← hplan.formed.id_eq hlayer, hwritten.arrives hkind, hwritten.bias_eq hkind]
  exact ⟨hinput, hlimited⟩

/-- Where a run ends whose table is in range, the weights of every layer fit the scale that its
inputs arrive at. -/
theorem InRange.weightsFit (hplan : plan.Standard) (h : plan.InRange table restarts floor factor)
    (hend : plan.Ended table restarts final) (hlayer : plan.network.layer? id = some layer)
    (hkind : layer.kind.hasWeights = true) :
    WeightsFit (plan.inputOf layer final) (plan.weightScale layer)
      (plan.limited layer (plan.inputOf layer final) final).2 := by
  obtain ⟨hfactor, hfull⟩ := h.weights hlayer hkind
  have hquotient := h.quotients hlayer hkind
  have houtput := h.outputs hlayer hkind
  have hpos := h.lowest_pos
  have hfinite := h.compounded_finite hplan ((restarts + 1) * plan.weightedCount)
  obtain ⟨hinput_le, houtput_le⟩ := h.le_uncapped hplan hend hlayer hkind
  generalize hlowest : compounded floor factor ((restarts + 1) * plan.weightedCount) = lowest
    at hquotient hpos hfinite
  obtain ⟨hinput, hproduct, hlimited⟩ := h.lowest_le hplan.toOrdered hend hlayer hkind hlowest
  have hunsigned {scale : Single} (hle : lowest ≤ scale) : scale.Unsigned :=
    unsigned_of_pos (lt_of_lt_of_le' hpos hle)
  have hwide : lowest ≤ ((plan.uncapped table).table.get id).bias.scale :=
    le_trans' hlimited houtput_le
  refine ⟨lt_of_lt_of_le' hpos hproduct, fun hbelow => ⟨?_, ?_⟩, fun habove => ⟨hfull, ?_⟩⟩
  · -- The smallest dividend and the largest divisor leave a positive quotient.
    have hdivided := isFinite_of_lt (hunsigned hlimited) (hunsigned hproduct) hbelow
    have hdivisor := div_anti hpos hfinite (hunsigned hinput)
      (hunsigned (le_trans' hinput hinput_le)) hinput_le
    have hdividend := div_le_div_right' (unsigned_of_pos hpos) (hunsigned hlimited)
      (hunsigned hinput) hlimited (number_of_le_right hdivisor)
      (isNaN_div_of_pos (lt_of_lt_of_le' hpos hlimited) hdivided (hunsigned hinput)
        (number_of_le_right hinput))
    exact lt_of_lt_of_le' hquotient (le_trans' hdivisor hdividend)
  · have hle := div_le_of_lt_mul (hunsigned hlimited) (hunsigned hinput)
      (plan.unsigned_weightScale layer) hbelow
    exact isFinite_of_le (unsigned_div (hunsigned hlimited) (hunsigned hinput)) hfull hle
      (plan.unsigned_weightScale layer)
  · rw [limited_of_not_lt habove] at houtput_le
    exact isFinite_of_le (hunsigned hproduct) houtput houtput_le (hunsigned hwide)

/-- Where a run ends whose table is in range, all scales are usable. -/
theorem InRange.usableSources (hplan : plan.Standard)
    (h : plan.InRange table restarts floor factor) (hend : plan.Ended table restarts final)
    (hsound : plan.Sound plan.network.size final) :
    UsableSources plan.network plan.precision plan.rule final.table where
  weighted := fun hlayer hkind =>
    (hsound.weightsFit_iff hplan hlayer hkind).2 (h.weightsFit hplan hend hlayer hkind)
  ranged := by
    intro id layer range hlayer hkind hrange habove
    have hscale : plan.rangeScale? final id = some (plan.rule.scaleFor range) :=
      Edge.rangeScale?_eq_some.2 ⟨range, hrange, habove, rfl⟩
    rw [hend.reaches.rangeScale? hplan.toOrdered (.start hend.size_le)] at hscale
    rw [← hplan.rule.zero_lt_scaleFor_iff (hplan.rule.zero_lt habove)]
    exact lt_of_lt_of_le' h.floor_pos
      (h.starts _ (mem_startingScales.2 (Or.inr ⟨id, layer, hlayer, Or.inr hscale⟩)))

end SweepPlan

end LayerQuant
