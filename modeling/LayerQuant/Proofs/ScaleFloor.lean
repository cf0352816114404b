import Mathlib
import LayerQuant.Proofs.LaterScales
import LayerQuant.Proofs.ScaleProducts
import LayerQuant.Proofs.SweepBudget

/-!
# The floor under the scales

A sweep starts from the default scale, the scales that the graph inputs have, and the scales that the
output ranges ask for, and comes below them only by weights. `Floored` says what bounds under its
scales are, one for every step that weights lead down. Deriving a layer leads down by one step at
most (`Floored.scalesFor`), and a restart by as many as there are weighted layers (`Floored.step`).
As long as no weight scale has to be below one, all bounds are one floor, and every moment of a run
stays above it, whatever it ends in (`run_stays_above_floor`).
-/

namespace LayerQuant

open Binary

namespace SweepPlan

variable {plan : SweepPlan} {sweep after final : Sweep} {layer : Layer} {k id : Nat}
  {floor : Single} {low : Nat → Single} {m n : Nat}

/-! ## Floors -/

/-- The number of weighted layers before a layer. -/
def weightedBefore (plan : SweepPlan) (id : Nat) : Nat :=
  (List.range id).countP fun id => (plan.network.layer? id).any (·.kind.hasWeights)

/-- The number of weighted layers. -/
def weightedCount (plan : SweepPlan) : Nat := plan.weightedBefore plan.network.size

theorem weightedBefore_mono {id other : Nat} (h : id ≤ other) :
    plan.weightedBefore id ≤ plan.weightedBefore other :=
  (List.range_sublist.2 h).countP_le

theorem weightedBefore_succ (hlayer : plan.network.layer? id = some layer) :
    plan.weightedBefore (id + 1) =
      plan.weightedBefore id + if layer.kind.hasWeights then 1 else 0 := by
  simp [weightedBefore, List.range_succ, List.countP_append, List.countP_singleton, hlayer]

/-- Bounds under the scales of a sweep. No scale that the sweep starts from is below the first one,
and weights take a scale from one of them to the next at most. -/
structure Floored (plan : SweepPlan) (low : Nat → Single) (table : EdgeTable) : Prop where
  falls : ∀ n, low (n + 1) ≤ low n
  default_le : low 0 ≤ plan.defaultScale
  given : ∀ {id layer}, plan.network.layer? id = some layer → layer.kind = .input →
    low 0 ≤ (table.get id).input.scale?.getD plan.defaultScale
  ranges : ∀ {id scale}, id < plan.network.size →
    (table.get id).output.rangeScale? plan.rule = some scale → low 0 ≤ scale
  weights : ∀ {id layer n scale}, plan.network.layer? id = some layer →
    layer.kind.hasWeights = true → low n ≤ scale → low (n + 1) ≤ scale * plan.weightScale layer

/-- Every cap is at least the floor. -/
def CapsAbove (floor : Single) (sweep : Sweep) : Prop :=
  ∀ id cap, sweep.cap? id = some cap → floor ≤ cap

/-- Every cap and the output scale of every processed layer is at least the floor. -/
structure AboveFloor (floor : Single) (sweep : Sweep) : Prop where
  caps : CapsAbove floor sweep
  outputs : ∀ id, sweep.isProcessed id = true → floor ≤ sweep.outputScale id

theorem le_capped (hcaps : CapsAbove floor sweep) {scale : Single}
    (h : floor ≤ scale) : floor ≤ sweep.capped id scale :=
  capped_of (p := (floor ≤ ·)) h fun hcap => hcaps id _ hcap

/-- What is above one of the bounds is above the later ones. -/
theorem Floored.le_of_le {table : EdgeTable} (h : plan.Floored low table) {scale : Single}
    {m n : Nat} (hmn : m ≤ n) (hle : low m ≤ scale) : low n ≤ scale := by
  induction n, hmn using Nat.le_induction with
  | base => exact hle
  | succ n _ ih => exact le_trans' (h.falls n) ih

/-- Whether something is a bound depends on the ranges and on the scales of graph inputs. -/
theorem Floored.congr (h : plan.Floored low sweep.table)
    (hgiven : ∀ {id layer}, plan.network.layer? id = some layer → layer.kind = .input →
      (final.table.get id).input.scale?.getD plan.defaultScale =
        (sweep.table.get id).input.scale?.getD plan.defaultScale)
    (hranges : ∀ id, plan.rangeScale? final id = plan.rangeScale? sweep id) :
    plan.Floored low final.table where
  falls := h.falls
  default_le := h.default_le
  given := by
    intro id layer hlayer hkind
    rw [hgiven hlayer hkind]
    exact h.given hlayer hkind
  ranges := fun {id _} hid hscale => h.ranges hid ((hranges id).symm.trans hscale)
  weights := h.weights

theorem Floored.outputLimit (h : plan.Floored low sweep.table) (hid : id < plan.network.size)
    (hcaps : CapsAbove (low m) sweep) {limit : Single}
    (hlimit : plan.outputLimit? sweep id = some limit) : low m ≤ limit := by
  rcases outputLimit?_cases hlimit with hrange | hcap
  · exact h.le_of_le (Nat.zero_le m) (h.ranges hid hrange)
  · exact hcaps id limit hcap

theorem Floored.inputOf (h : plan.Floored low sweep.table)
    (hinputs : ∀ p ∈ layer.inputs, low n ≤ sweep.outputScale p) :
    low n ≤ plan.inputOf layer sweep := by
  unfold SweepPlan.inputOf
  cases hleast : smallest? (layer.inputs.map sweep.outputScale) with
  | none => exact h.le_of_le (Nat.zero_le n) h.default_le
  | some least =>
      obtain ⟨p, hp, rfl⟩ := List.mem_map.1 (isSmallest_of_smallest? hleast).1
      exact hinputs p hp

/-- The output of a weighted layer, before it is capped, is one bound below its inputs. -/
theorem Floored.limited (hplan : plan.Ordered) (h : plan.Floored low sweep.table)
    (hcaps : CapsAbove (low m) sweep) (hmn : m ≤ n)
    (hlayer : plan.network.layer? id = some layer) (hkind : layer.kind.hasWeights = true)
    (hinputs : ∀ p ∈ layer.inputs, low n ≤ sweep.outputScale p) :
    low (n + 1) ≤ (plan.limited layer (plan.inputOf layer sweep) sweep).2 := by
  rcases limited_cases plan layer sweep with hproduct | hlimit
  · rw [hproduct]
    exact h.weights hlayer hkind (h.inputOf hinputs)
  · have hid : layer.id < plan.network.size :=
      (hplan.formed.id_eq hlayer).trans_lt (Network.lt_size hlayer)
    exact h.le_of_le (hmn.trans (Nat.le_succ n)) (h.outputLimit hid hcaps hlimit)

/-- A layer whose inputs are above a bound derives an output scale that is, or one that is above the
next bound if it has weights. -/
theorem Floored.scalesFor (hplan : plan.Ordered) (h : plan.Floored low sweep.table)
    (hcaps : CapsAbove (low m) sweep) (hmn : m ≤ n)
    (hlayer : plan.network.layer? id = some layer)
    (hinputs : ∀ p ∈ layer.inputs, low n ≤ sweep.outputScale p) :
    low (n + if layer.kind.hasWeights then 1 else 0) ≤ (plan.scalesFor layer sweep).output := by
  have hid := hplan.formed.id_eq hlayer
  have hstarts : ∀ {scale : Single}, low 0 ≤ scale → low n ≤ scale := h.le_of_le (Nat.zero_le n)
  have hrange : ∀ {scale}, plan.rangeScale? sweep layer.id = some scale → low n ≤ scale := by
    intro scale hscale
    rw [hid] at hscale
    exact hstarts (h.ranges (Network.lt_size hlayer) hscale)
  by_cases hinput : layer.kind = .input
  · unfold SweepPlan.scalesFor
    simp only [hinput, hid]
    exact hstarts (h.given hlayer hinput)
  have hcapped : ∀ {scale : Single}, low n ≤ scale → low n ≤ sweep.capped layer.id scale :=
    fun hscale => le_capped (fun id cap hcap => h.le_of_le hmn (hcaps id cap hcap)) hscale
  by_cases hmemory : layer.kind = .memory
  · unfold SweepPlan.scalesFor
    simp only [hmemory]
    refine hcapped ?_
    cases hscale : plan.rangeScale? sweep layer.id with
    | none => exact hstarts h.default_le
    | some scale => exact hrange hscale
  cases hkind : layer.kind.hasWeights with
  | true =>
      rw [scalesFor_of_weighted hkind]
      have hnext : CapsAbove (low (n + 1)) sweep := fun id cap hcap =>
        h.le_of_le (hmn.trans (Nat.le_succ n)) (hcaps id cap hcap)
      exact le_capped hnext (h.limited hplan hcaps hmn hlayer hkind hinputs)
  | false =>
      rw [scalesFor_of_plain hinput hmemory hkind]
      refine hcapped ?_
      unfold plainOutput
      split
      · rename_i hscale
        exact hrange hscale
      · rename_i hscale
        exact minimum_of_both (p := (low n ≤ ·)) (h.inputOf hinputs) (hrange hscale)
      · exact h.inputOf hinputs

/-- A layer whose scales are written, and those of the layers before it, is above the bound that the
weighted layers up to it lead to from the bound on the caps. -/
theorem Floored.output_succ (hplan : plan.Ordered) (h : plan.Floored low sweep.table)
    (hwritten : ∀ {id layer}, plan.network.layer? id = some layer → id < k →
      plan.Written layer sweep)
    (hcaps : CapsAbove (low m) sweep) (hsize : k ≤ plan.network.size) (hid : id < k) :
    low (m + plan.weightedBefore (id + 1)) ≤ sweep.outputScale id := by
  refine hplan.formed.induct hsize id hid fun {id layer} hlayer hid hinputs => ?_
  rw [weightedBefore_succ hlayer, ← Nat.add_assoc]
  have houtput := (hwritten hlayer hid).output_eq
  rw [hplan.formed.id_eq hlayer] at houtput
  rw [houtput]
  refine h.scalesFor hplan hcaps (Nat.le_add_right m _) hlayer fun p hp => ?_
  have hlt := hplan.formed.inputs_lt hlayer p hp
  exact h.le_of_le (Nat.add_le_add_left (weightedBefore_mono hlt) m) (hinputs p hp)

/-- The processed layers are above the bound that all weighted layers lead to from the bound on the
caps. -/
theorem Floored.output (hplan : plan.Ordered) (h : plan.Floored low sweep.table)
    (hconsistent : plan.Consistent k sweep) (hcaps : CapsAbove (low m) sweep) (hid : id < k) :
    low (m + plan.weightedCount) ≤ sweep.outputScale id := by
  have hsize : id + 1 ≤ plan.network.size := hid.trans_le hconsistent.atLayer.le_size
  exact h.le_of_le (Nat.add_le_add_left (weightedBefore_mono hsize) m)
    (h.output_succ hplan (fun hlayer hlt => (hconsistent.settled hlayer hlt).written) hcaps
      hconsistent.atLayer.le_size hid)

/-- The caps that the first unprocessed layer asks for are above that bound too. -/
theorem Floored.capFor (hplan : plan.Ordered) (h : plan.Floored low sweep.table)
    (hconsistent : plan.Consistent k sweep) (hcaps : CapsAbove (low m) sweep)
    (hlayer : plan.network.layer? k = some layer) {cap : Single}
    (hcap : plan.CapFor layer sweep cap) : low (m + plan.weightedCount) ≤ cap := by
  rcases hcap.2 with hleast | ⟨_, hlimit⟩
  · obtain ⟨p, hp, rfl⟩ := List.mem_map.1 (isSmallest_of_smallest? hleast).1
    exact h.output hplan hconsistent hcaps (hplan.formed.inputs_lt hlayer p hp)
  · rw [hplan.formed.id_eq hlayer] at hlimit
    exact h.le_of_le (Nat.le_add_right m _) (h.outputLimit (Network.lt_size hlayer) hcaps hlimit)

/-! ## Along a run -/

/-- A run keeps the bounds: it writes neither ranges nor other scales to graph inputs. -/
theorem Floored.reaches (hplan : plan.Ordered) (h : plan.Floored low sweep.table)
    (hconsistent : plan.Consistent k sweep) (hreaches : plan.Reaches sweep final) :
    plan.Floored low final.table :=
  h.congr (hreaches.given hplan hconsistent) (hreaches.rangeScale? hplan hconsistent)

/-- Caps are tightened by restarts only, each of which leads one round of weights further down. -/
theorem Floored.step (hplan : plan.Ordered) (h : plan.Floored low sweep.table)
    (hconsistent : plan.Consistent k sweep)
    (hcaps : CapsAbove (low (sweep.restarts * plan.weightedCount)) sweep)
    (hstep : plan.Step sweep after) :
    CapsAbove (low (after.restarts * plan.weightedCount)) after := by
  cases hstep with
  | begin => exact hcaps
  | settle _ _ hderive =>
      obtain ⟨⟨noted, _, heq⟩, _⟩ := derive_eq_some hderive
      rw [heq]
      exact hcaps
  | @restart _ layer hat hlayer _ =>
      obtain rfl := hconsistent.atLayer.unique hat
      obtain ⟨_, _, htight⟩ := (plan.derive_pushed layer sweep).tightened hplan hconsistent.atLayer
      intro id cap hcap
      show low (((plan.derive layer sweep).1.restarts + 1) * plan.weightedCount) ≤ cap
      rw [htight.restarts, Nat.succ_mul]
      rcases htight.caps hcap with hold | hnew
      · exact h.le_of_le (Nat.le_add_right _ _) (hcaps id cap hold)
      · exact h.capFor hplan hconsistent hcaps hlayer hnew

/-- Along a run all caps are above the bound that the restarts lead to. -/
theorem Floored.caps (hplan : plan.Ordered) (h : plan.Floored low sweep.table)
    (hconsistent : plan.Consistent k sweep) (hnone : ∀ id, sweep.cap? id = none)
    (hreaches : plan.Reaches sweep final) :
    CapsAbove (low (final.restarts * plan.weightedCount)) final := by
  induction hreaches with
  | refl =>
      intro id cap hcap
      rw [hnone id] at hcap
      cases hcap
  | @tail middle last hbefore hstep ih =>
      obtain ⟨k', hmiddle⟩ := hconsistent.reaches hplan hbefore
      exact (h.reaches hplan hconsistent hbefore).step hplan hmiddle ih hstep

/-! ## At every moment -/

/-- The sweeps that a call comes through: the one it is made in, what becomes of it while caps are
pushed for its layer one by one, and the one that it returns. -/
inductive Call.Moment (plan : SweepPlan) (call : Call) : Sweep → Prop where
  | pushing {layer : Layer} {moment : Sweep} :
      plan.network.layer? call.layer = some layer →
      plan.Pushed (plan.CapFor layer call.sweep) call.sweep moment → Moment plan call moment
  | returned : Moment plan call (call.result plan).1

/-- Pushing the caps that a layer asks for leaves a sweep above the bound that the weighted layers
lead to. -/
theorem Floored.pushed (hplan : plan.Ordered) (h : plan.Floored low sweep.table)
    (hconsistent : plan.Consistent k sweep)
    (hcaps : CapsAbove (low m) sweep)
    (hlayer : plan.network.layer? k = some layer)
    (hpushed : plan.Pushed (plan.CapFor layer sweep) sweep after) :
    AboveFloor (low (m + plan.weightedCount)) after := by
  obtain ⟨k', hle, htight⟩ := hpushed.tightened hplan hconsistent.atLayer
  refine ⟨fun id cap hcap => ?_, fun id hid => ?_⟩
  · rcases htight.caps hcap with hold | hnew
    · exact h.le_of_le (Nat.le_add_right m _) (hcaps id cap hold)
    · exact h.capFor hplan hconsistent hcaps hlayer hnew
  · have hlt := htight.atLayer.lt_of_isProcessed hid
    unfold Sweep.outputScale
    rw [htight.table]
    exact h.output hplan hconsistent hcaps (hlt.trans_le hle)

/-- A sweep is above the bound that the weighted layers lead to from the bound on its caps. -/
theorem Floored.aboveFloor (hplan : plan.Ordered) (h : plan.Floored low sweep.table)
    (hconsistent : plan.Consistent k sweep)
    (hcaps : CapsAbove (low m) sweep) : AboveFloor (low (m + plan.weightedCount)) sweep :=
  ⟨fun id cap hcap => h.le_of_le (Nat.le_add_right m _) (hcaps id cap hcap), fun _ hid =>
    h.output hplan hconsistent hcaps (hconsistent.atLayer.lt_of_isProcessed hid)⟩

/-- A call that a run makes is above the bound that the restarts before it lead to. -/
theorem Floored.call {origin : Sweep} {call : Call} (hplan : plan.Ordered)
    (h : plan.Floored low origin.table) (hstart : plan.Consistent k origin)
    (hnone : ∀ id, origin.cap? id = none) (hdue : call.Due plan origin) {moment : Sweep}
    (hmoment : call.Moment plan moment) :
    AboveFloor (low ((call.sweep.restarts + 1) * plan.weightedCount)) moment := by
  obtain ⟨layer, hlayer, hconsistent, htransformed⟩ := hdue.transformed hplan hstart
  have hfloored := h.reaches hplan hstart hdue.reached
  have hcaps := h.caps hplan hstart hnone hdue.reached
  rw [Nat.succ_mul]
  cases hmoment with
  | pushing hlayer hpushed => exact hfloored.pushed hplan hconsistent hcaps hlayer hpushed
  | returned =>
      have hderived := hfloored.pushed hplan hconsistent hcaps hlayer
        (plan.derive_pushed layer call.sweep)
      generalize call.result plan = result at htransformed ⊢
      cases htransformed with
      | @settled scales hderive =>
          have hstep := Step.settle hconsistent.atLayer hlayer hderive
          have hreached := hdue.reached.tail hstep
          have hsettled := h.caps hplan hstart hnone hreached
          have hrestarts : ((plan.derive layer call.sweep).1.settle call.layer scales).restarts =
              call.sweep.restarts := (hconsistent.derive_restarts hplan layer).1
          rw [hrestarts] at hsettled
          exact (h.reaches hplan hstart hreached).aboveFloor hplan
            (hconsistent.settle hplan hlayer hderive) hsettled
      | restarted => exact ⟨hderived.caps, hderived.outputs⟩
      | exhausted => exact ⟨hderived.caps, hderived.outputs⟩

/-- A pass leaves the sweep as it began or as its last call returned it. -/
theorem pass_returned (ids : List Nat) (sweep : Sweep) :
    (plan.pass ids sweep).1 = sweep ∨
      ∃ call ∈ plan.passCalls ids sweep, (plan.pass ids sweep).1 = (call.result plan).1 := by
  induction ids generalizing sweep with
  | nil => exact Or.inl rfl
  | cons id rest ih =>
      right
      unfold pass passCalls
      cases hcall : plan.transform id sweep with
      | mk next result =>
          have hfirst : (Call.result plan ⟨sweep, id⟩).1 = next := congrArg Prod.fst hcall
          cases result with
          | error error => exact ⟨⟨sweep, id⟩, List.mem_cons_self, hfirst.symm⟩
          | ok =>
              dsimp only
              split
              · exact ⟨⟨sweep, id⟩, List.mem_cons_self, hfirst.symm⟩
              · rcases ih next with hsame | ⟨call, hcall, heq⟩
                · exact ⟨⟨sweep, id⟩, List.mem_cons_self, hsame.trans hfirst.symm⟩
                · exact ⟨call, List.mem_cons_of_mem _ hcall, heq⟩

/-- The loop ends above the floor if it starts there and every call returns there. -/
theorem Loop.aboveFloor {calls : List Call} {result : Sweep × Except Error Unit}
    (h : plan.Loop sweep calls result) (hstart : AboveFloor floor sweep)
    (hcalls : ∀ call ∈ calls, AboveFloor floor (call.result plan).1) :
    AboveFloor floor result.1 := by
  -- Beginning a pass touches neither the caps nor what is processed.
  have hpassed : ∀ {sweep begun after : Sweep} {ids : List Nat} {outcome : Except Error Unit},
      plan.startPass sweep = (begun, ids) → plan.pass ids begun = (after, outcome) →
      AboveFloor floor sweep →
      (∀ call ∈ plan.passCalls ids begun, AboveFloor floor (call.result plan).1) →
      AboveFloor floor after := by
    intro sweep begun after ids outcome hbegun hpass habove hcalls
    have hbegun : AboveFloor floor begun := by
      obtain rfl : (plan.startPass sweep).1 = begun := congrArg Prod.fst hbegun
      exact ⟨habove.caps, habove.outputs⟩
    obtain rfl : (plan.pass ids begun).1 = after := congrArg Prod.fst hpass
    rcases plan.pass_returned ids begun with hsame | ⟨call, hcall, heq⟩
    · rwa [hsame]
    · rw [heq]
      exact hcalls call hcall
  induction h with
  | done => exact hstart
  | failed _ hbegun hpass => exact hpassed hbegun hpass hstart hcalls
  | again _ hbegun hpass _ ih =>
      refine ih (hpassed hbegun hpass hstart fun call hcall => ?_) fun call hcall => ?_
      · exact hcalls call (List.mem_append_left _ hcall)
      · exact hcalls call (List.mem_append_right _ hcall)

/-- A run is its loop: as many passes as there are restarts, and one more, are enough. -/
theorem run_loop {table : EdgeTable} (hplan : plan.Ordered)
    (hsize : plan.network.size ≤ table.size) :
    ∃ calls, plan.Loop (.start plan.network table) calls
        (plan.run (.start plan.network table)) ∧
      ∀ call ∈ calls, call.Due plan (.start plan.network table) := by
  have hrun : plan.run (.start plan.network table) =
      plan.passes (plan.maxRestarts + 1) (.start plan.network table) :=
    if_neg (Nat.not_lt.2 hsize)
  have hnone : (Sweep.start plan.network table).restarts = 0 := rfl
  obtain ⟨calls, hloop, _, hdue, _⟩ :=
    (Consistent.start hsize).loop hplan (plan.maxRestarts + 1) (Nat.zero_le _) (by omega)
  rw [hrun]
  exact ⟨calls, hloop, hdue⟩

/-! ## The floor of a table -/

/-- What the scales of a sweep start from: the default scale, the scales that graph inputs have, and
the scales that the aggregated output ranges ask for. -/
def startingScales (plan : SweepPlan) (table : EdgeTable) : List Single :=
  plan.defaultScale :: (List.range plan.network.size).flatMap fun id =>
    (if (plan.network.layer? id).any (·.isInput) then (table.get id).input.scale?.toList else []) ++
      ((table.get id).output.rangeScale? plan.rule).toList

theorem mem_startingScales {table : EdgeTable} {scale : Single} :
    scale ∈ plan.startingScales table ↔ scale = plan.defaultScale ∨
      ∃ id layer, plan.network.layer? id = some layer ∧
        (layer.kind = .input ∧ (table.get id).input.scale? = some scale ∨
          (table.get id).output.rangeScale? plan.rule = some scale) := by
  simp only [startingScales, List.mem_cons, List.mem_flatMap, List.mem_range, List.mem_append,
    Option.mem_toList]
  refine or_congr_right ⟨?_, ?_⟩
  · rintro ⟨id, hid, hscale⟩
    obtain ⟨layer, hlayer⟩ := Network.exists_layer hid
    refine ⟨id, layer, hlayer, hscale.imp_left fun hgiven => ?_⟩
    simpa [hlayer, Layer.isInput] using hgiven
  · rintro ⟨id, layer, hlayer, hscale⟩
    refine ⟨id, Network.lt_size hlayer, hscale.imp_left fun hgiven => ?_⟩
    simp [hlayer, Layer.isInput, hgiven.1, hgiven.2]

/-- Where the bounds begin below the starting scales, they are bounds under a sweep. -/
theorem floored_of_starts {table : EdgeTable} (hfalls : ∀ n, low (n + 1) ≤ low n)
    (hstarts : ∀ scale ∈ plan.startingScales table, low 0 ≤ scale)
    (hweights : ∀ {id layer n scale}, plan.network.layer? id = some layer →
      layer.kind.hasWeights = true → low n ≤ scale → low (n + 1) ≤ scale * plan.weightScale layer) :
    plan.Floored low table where
  falls := hfalls
  default_le := hstarts _ (mem_startingScales.2 (Or.inl rfl))
  given := by
    intro id layer hlayer hkind
    cases hscale : (table.get id).input.scale? with
    | none => exact hstarts _ (mem_startingScales.2 (Or.inl rfl))
    | some scale =>
        exact hstarts _ (mem_startingScales.2 (Or.inr ⟨id, layer, hlayer, Or.inl ⟨hkind, hscale⟩⟩))
  ranges := by
    intro id scale hid hscale
    obtain ⟨layer, hlayer⟩ := Network.exists_layer hid
    exact hstarts _ (mem_startingScales.2 (Or.inr ⟨id, layer, hlayer, Or.inr hscale⟩))
  weights := hweights

/-- The smallest of the starting scales is a floor if it is positive and the weights fit. -/
theorem Standard.floored {table : EdgeTable} (hplan : plan.Standard)
    (hgiven : ∀ {id layer scale}, plan.network.layer? id = some layer → layer.kind = .input →
      (table.get id).input.scale? = some scale → .zero < scale ∧ scale.isFinite = true)
    (hweights : ∀ {id layer}, plan.network.layer? id = some layer →
      layer.kind.hasWeights = true → layer.maxAbsWeight ≤ plan.precision.maxWeight)
    (hfloor : smallest? (plan.startingScales table) = some floor) (hpos : .zero < floor) :
    plan.Floored (fun _ => floor) table := by
  refine floored_of_starts (fun _ => le_refl_of_number (number_of_lt_right hpos))
    (fun scale hmem => (isSmallest_of_smallest? hfloor).le hmem ?_) fun hlayer hkind habove => ?_
  · rcases mem_startingScales.1 hmem with rfl | ⟨id, layer, hlayer, ⟨hkind, hscale⟩ | hscale⟩
    · exact number_of_lt_right hplan.zero_lt_default
    · exact number_of_lt_right (hgiven hlayer hkind hscale).1
    · exact Edge.rangeScale?_number hplan.rule hscale
  · exact le_trans' habove (le_mul_of_one_le (lt_of_lt_of_le' hpos habove)
      (one_le_weightScale (hweights hlayer hkind)))

/-- If the weights of every layer fit their precision, no scale gets below the smallest one that the
sweep starts from, given that this one is positive: every sweep that a call of the run comes through
is above it, and so is the one that the run ends with, whether it succeeds or not. -/
theorem run_stays_above_floor {config : Config} {network : Network} {table : EdgeTable}
    (hbuilt : network.Built) (hvalid : config.validate = .ok ())
    (hplan : config.sweepPlan network = .ok plan) (hsize : network.size ≤ table.size)
    (hgiven : ∀ {id layer scale}, network.layer? id = some layer → layer.kind = .input →
      (table.get id).input.scale? = some scale → .zero < scale ∧ scale.isFinite = true)
    (hweights : ∀ {id layer}, network.layer? id = some layer →
      layer.kind.hasWeights = true → layer.maxAbsWeight ≤ config.weightsPrecision.maxWeight)
    (hfloor : smallest? (plan.startingScales table) = some floor) (hpos : .zero < floor) :
    ∃ calls, plan.Loop (.start network table) calls (plan.run (.start network table)) ∧
      (∀ call ∈ calls, ∀ moment, call.Moment plan moment → AboveFloor floor moment) ∧
      AboveFloor floor (plan.run (.start network table)).1 := by
  obtain ⟨hstandard, rfl, _⟩ := standard_of_sweepPlan hbuilt hvalid hplan
  have hprecision : plan.precision = config.weightsPrecision := by
    rw [(sweepPlan_eq_ok hbuilt hplan).2]
  rw [← hprecision] at hweights
  have hfloored : plan.Floored (fun _ => floor) (Sweep.start plan.network table).table :=
    hstandard.floored hgiven hweights hfloor hpos
  have hstart : plan.Consistent 0 (.start plan.network table) := .start hsize
  have hnone := Sweep.cap?_start plan.network table
  obtain ⟨calls, hloop, hdue⟩ := run_loop hstandard.toOrdered hsize
  have hmoments : ∀ call ∈ calls, ∀ moment, call.Moment plan moment →
      AboveFloor floor moment := fun call hcall _ =>
    hfloored.call hstandard.toOrdered hstart hnone (hdue call hcall)
  have hbegins : AboveFloor floor (.start plan.network table) :=
    hfloored.aboveFloor (m := 0) hstandard.toOrdered hstart
      (hfloored.caps hstandard.toOrdered hstart hnone .refl)
  exact ⟨calls, hloop, hmoments, hloop.aboveFloor hbegins fun call hcall =>
    hmoments call hcall _ .returned⟩

/-- An activation between an input and a layer with the weight one half. -/
def stacked : Network where
  layers := #[{ id := 0, name := "samples", kind := .input },
    { id := 1, name := "active", kind := .activation, inputs := [0] },
    { id := 2, name := "dense", kind := .affine, inputs := [1],
      weights := some [.ofRatio .single false 1 2] }]
  inputs := [0]

theorem stacked_built : stacked.Built := by
  have hsamples : Network.addInput {} "samples" =
      .ok (⟨#[{ id := 0, name := "samples", kind := .input }], [0]⟩, 0) := by cbv
  have hactive : Network.addLayer ⟨#[{ id := 0, name := "samples", kind := .input }], [0]⟩
      "active" .activation [0] =
      .ok (⟨#[{ id := 0, name := "samples", kind := .input },
        { id := 1, name := "active", kind := .activation, inputs := [0] }], [0]⟩, 1) := by cbv
  have hdense : Network.addLayer ⟨#[{ id := 0, name := "samples", kind := .input },
      { id := 1, name := "active", kind := .activation, inputs := [0] }], [0]⟩
      "dense" .affine [1] = .ok (⟨#[{ id := 0, name := "samples", kind := .input },
        { id := 1, name := "active", kind := .activation, inputs := [0] },
        { id := 2, name := "dense", kind := .affine, inputs := [1] }], [0]⟩, 2) := by cbv
  have hweights : Network.setWeights ⟨#[{ id := 0, name := "samples", kind := .input },
      { id := 1, name := "active", kind := .activation, inputs := [0] },
      { id := 2, name := "dense", kind := .affine, inputs := [1] }], [0]⟩ 2
      [.ofRatio .single false 1 2] none = .ok stacked := by rfl
  exact .setWeights (.addLayer (.addLayer (.addInput .empty hsamples) hactive) hdense) hweights

/-- The output of the weighted layer is to be ten times as wide as the one of the activation. -/
def stackedTable : EdgeTable where
  layers := #[{ input := { scale? := some (.ofNat .single 4) } },
    { output := { aggregated? := some (.ofNat .single 100) } },
    { output := { aggregated? := some (.ofNat .single 1000) } }]

/-- The plan for `stacked` that allows no restart. -/
def stackedPlan : SweepPlan where
  network := stacked
  order := [0, 1, 2]
  rule := {}
  defaultScale := .ofNat .single 1
  precision := .int16
  maxRestarts := 0

/-- The weighted layer caps the activation, which is one restart too many, and the cap is above the
floor. -/
theorem stacked_stays_above_floor :
    smallest? (stackedPlan.startingScales stackedTable) = some (.ofNat .single 1) ∧
      (stackedPlan.run (.start stacked stackedTable)).2 = .error (.scaleNotConverged 0) ∧
      ∃ cap, (stackedPlan.run (.start stacked stackedTable)).1.cap? 1 = some cap ∧
        .ofNat .single 1 ≤ cap := by
  have hplan : Config.sweepPlan { maxRestarts := 0 } stacked = .ok stackedPlan :=
    sweepPlan_of_built stacked_built _
  have hgiven : ∀ {id layer scale}, stacked.layer? id = some layer → layer.kind = .input →
      (stackedTable.get id).input.scale? = some scale →
      .zero < scale ∧ scale.isFinite = true :=
    fun _ _ hscale => given_of_forall (by decide +kernel) hscale
  have hweights : ∀ {id layer}, stacked.layer? id = some layer → layer.kind.hasWeights = true →
      layer.maxAbsWeight ≤ Precision.int16.maxWeight := by
    intro id layer hlayer hkind
    rcases id with _ | _ | _ | id
    · obtain rfl := Option.some.inj hlayer
      cases hkind
    · obtain rfl := Option.some.inj hlayer
      cases hkind
    · obtain rfl := Option.some.inj hlayer
      decide +kernel
    · simp [stacked, Network.layer?] at hlayer
  have hfloor : smallest? (stackedPlan.startingScales stackedTable) = some (.ofNat .single 1) := by
    decide +kernel
  obtain ⟨_, _, _, habove⟩ := run_stays_above_floor stacked_built (by decide +kernel) hplan
    (by decide) hgiven hweights hfloor (by decide +kernel)
  have hcapped : ((stackedPlan.run (.start stacked stackedTable)).1.cap? 1).isSome = true := by
    decide +kernel
  obtain ⟨cap, hcap⟩ := Option.isSome_iff_exists.1 hcapped
  exact ⟨hfloor, by decide +kernel, cap, hcap, habove.caps 1 cap hcap⟩

end SweepPlan

end LayerQuant
