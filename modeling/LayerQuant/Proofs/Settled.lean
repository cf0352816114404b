import Mathlib
import LayerQuant.Proofs.SweepStep

/-!
# Settled layers

A layer is settled when deriving it would change nothing. What settles a layer lies at or before it
(`Settled.congr`), so a sweep in which the processed layers are the first ones and are settled
(`Consistent`) can lose the later ones without touching the earlier ones.
-/

namespace LayerQuant

namespace LayerEdges

variable {edges : LayerEdges} {scales : DerivedScales}

@[simp] theorem setScales_input_scale? : (edges.setScales scales).input.scale? =
    some scales.input := by
  unfold setScales
  cases scales.weights? <;> rfl

@[simp] theorem setScales_output_scale? : (edges.setScales scales).output.scale? =
    some scales.output := by
  unfold setScales
  cases scales.weights? <;> rfl

theorem setScales_weights_scale? (edges : LayerEdges) (scales : DerivedScales)
    {weights bias : Single} (h : scales.weights? = some (weights, bias)) :
    (edges.setScales scales).weights.scale? = some weights ∧
      (edges.setScales scales).bias.scale? = some bias := by
  simp [setScales, h, Edge.setScale]

@[simp] theorem setScales_output_range? : (edges.setScales scales).output.range? =
    edges.output.range? := by
  unfold setScales
  cases scales.weights? <;> rfl

@[simp] theorem setScales_output_aggregated? : (edges.setScales scales).output.aggregated? =
    edges.output.aggregated? := by
  unfold setScales
  cases scales.weights? <;> rfl

@[simp] theorem setScales_setScales : (edges.setScales scales).setScales scales =
    edges.setScales scales := by
  unfold setScales
  cases scales.weights? <;> rfl

end LayerEdges

namespace SweepPlan

variable {plan : SweepPlan} {sweep after : Sweep} {layer : Layer} {k id : Nat}

/-- Everything that the scales of a layer depend on is the same in both sweeps: the scale of a graph
input, the output scales of the inputs, the cap of the layer, and its aggregated range. -/
structure Agrees (plan : SweepPlan) (layer : Layer) (sweep after : Sweep) : Prop where
  given : layer.kind = .input →
    (after.table.get layer.id).input.scale?.getD plan.defaultScale =
      (sweep.table.get layer.id).input.scale?.getD plan.defaultScale
  inputs : ∀ p ∈ layer.inputs, after.outputScale p = sweep.outputScale p
  cap : after.cap? layer.id = sweep.cap? layer.id
  range : (after.table.get layer.id).output.aggregated? =
    (sweep.table.get layer.id).output.aggregated?

theorem Agrees.inputScales (h : plan.Agrees layer sweep after) :
    layer.inputs.map after.outputScale = layer.inputs.map sweep.outputScale :=
  List.map_congr_left h.inputs

theorem Agrees.inputOf (h : plan.Agrees layer sweep after) :
    plan.inputOf layer after = plan.inputOf layer sweep := by
  unfold SweepPlan.inputOf
  rw [h.inputScales]

theorem Agrees.rangeScale? (h : plan.Agrees layer sweep after) :
    plan.rangeScale? after layer.id = plan.rangeScale? sweep layer.id := by
  unfold SweepPlan.rangeScale? Edge.rangeScale?
  rw [h.range]

theorem Agrees.outputLimit? (h : plan.Agrees layer sweep after) :
    plan.outputLimit? after layer.id = plan.outputLimit? sweep layer.id := by
  unfold SweepPlan.outputLimit?
  rw [h.rangeScale?, h.cap]

theorem Agrees.capped (h : plan.Agrees layer sweep after) (scale : Single) :
    after.capped layer.id scale = sweep.capped layer.id scale := by
  unfold Sweep.capped
  rw [h.cap]

theorem Agrees.scalesFor (h : plan.Agrees layer sweep after) :
    plan.scalesFor layer after = plan.scalesFor layer sweep := by
  have hlimited : plan.limited layer (plan.inputOf layer sweep) after =
      plan.limited layer (plan.inputOf layer sweep) sweep := by
    unfold limited
    rw [h.outputLimit?]
  have hplain : plan.plainOutput layer (plan.inputOf layer sweep) after =
      plan.plainOutput layer (plan.inputOf layer sweep) sweep := by
    unfold plainOutput
    rw [h.rangeScale?]
  by_cases hinput : layer.kind = .input
  · unfold SweepPlan.scalesFor
    simp only [hinput, h.given hinput]
  by_cases hmemory : layer.kind = .memory
  · unfold SweepPlan.scalesFor
    simp only [hmemory, h.capped, h.rangeScale?]
  cases hkind : layer.kind.hasWeights with
  | true =>
      rw [scalesFor_of_weighted hkind, scalesFor_of_weighted hkind, h.inputOf, hlimited, h.capped]
  | false =>
      rw [scalesFor_of_plain hinput hmemory hkind, scalesFor_of_plain hinput hmemory hkind,
        h.inputOf, hplain, h.capped]

/-- Requirements stay met if the caps that they are met by stay and no conflict is forgotten. -/
theorem Met.congr (h : plan.Met layer sweep) (hagrees : plan.Agrees layer sweep after)
    (hcaps : ∀ p ∈ layer.inputs, ∀ q ∈ plan.network.frontier p, after.cap? q = sweep.cap? q)
    (hconflicts : sweep.conflicts ⊆ after.conflicts) : plan.Met layer after := by
  have hplaced : ∀ {cap : Single} {p : Nat}, p ∈ layer.inputs →
      plan.Placed cap layer.id sweep p → plan.Placed cap layer.id after p := by
    intro cap p hp hheld q hq layer' hlayer'
    obtain ⟨hconflict, hcap⟩ := hheld q hq layer' hlayer'
    refine ⟨fun hkind => ?_, fun hkind => by rw [hcaps p hp q hq]; exact hcap hkind⟩
    obtain ⟨c, hc, heq⟩ := hconflict hkind
    exact ⟨c, hconflicts hc, heq⟩
  refine ⟨fun hkind huniform least hleast p hp hfiner => ?_,
    fun hkind limit hlimit hexceeds hcoarse p hp => ?_⟩
  · rw [hagrees.inputScales] at hleast
    rw [hagrees.inputs p hp] at hfiner
    exact hplaced hp (h.inputs hkind huniform least hleast p hp hfiner)
  · rw [hagrees.outputLimit?] at hlimit
    rw [hagrees.inputOf] at hexceeds hcoarse
    exact hplaced hp (h.limit hkind limit hlimit hexceeds hcoarse p hp)

/-- The entry of the layer has the scales that follow for it from the table and the caps. -/
def Written (plan : SweepPlan) (layer : Layer) (sweep : Sweep) : Prop :=
  (sweep.table.get layer.id).setScales (plan.scalesFor layer sweep) = sweep.table.get layer.id

theorem Written.output_eq (h : plan.Written layer sweep) :
    sweep.outputScale layer.id = (plan.scalesFor layer sweep).output := by
  have houtput := congrArg (·.output.scale?) h
  simp only [LayerEdges.setScales_output_scale?] at houtput
  simp [Sweep.outputScale, Edge.scale, ← houtput]

theorem Written.input_eq (h : plan.Written layer sweep) :
    (sweep.table.get layer.id).input.scale = (plan.scalesFor layer sweep).input := by
  have hinput := congrArg (·.input.scale?) h
  simp only [LayerEdges.setScales_input_scale?] at hinput
  simp [Edge.scale, ← hinput]

theorem Written.weights_eq (h : plan.Written layer sweep)
    (hkind : layer.kind.hasWeights = true) :
    ((sweep.table.get layer.id).weights.scale, (sweep.table.get layer.id).bias.scale) =
      plan.limited layer (plan.inputOf layer sweep) sweep := by
  have hscales : (sweep.table.get layer.id).setScales _ = _ := h
  rw [scalesFor_of_weighted hkind] at hscales
  generalize plan.limited layer (plan.inputOf layer sweep) sweep = limited at hscales
  obtain ⟨hweights, hbias⟩ := (sweep.table.get layer.id).setScales_weights_scale?
    { input := plan.inputOf layer sweep, output := sweep.capped layer.id limited.2,
      weights? := some limited } rfl
  rw [hscales] at hweights hbias
  simp [Edge.scale, hweights, hbias]

/-- The bias scale of a layer is its output scale before capping. -/
theorem Written.bias_eq (h : plan.Written layer sweep) (hkind : layer.kind.hasWeights = true) :
    (sweep.table.get layer.id).bias.scale =
      (plan.limited layer (plan.inputOf layer sweep) sweep).2 :=
  congrArg Prod.snd (h.weights_eq hkind)

/-- What the scales of a layer follow from lies at or before it. -/
theorem agrees_of_entries (hplan : plan.Ordered) (hlayer : plan.network.layer? id = some layer)
    (hentries : ∀ j ≤ id, after.table.get j = sweep.table.get j)
    (hcap : after.cap? id = sweep.cap? id) : plan.Agrees layer sweep after := by
  have hid := hplan.formed.id_eq hlayer
  refine ⟨fun _ => ?_, fun p hp => ?_, ?_, ?_⟩
  · rw [hid, hentries id le_rfl]
  · unfold Sweep.outputScale
    rw [hentries p (hplan.formed.inputs_lt hlayer p hp).le]
  · rwa [hid]
  · rw [hid, hentries id le_rfl]

theorem Written.congr (h : plan.Written layer sweep) (hagrees : plan.Agrees layer sweep after)
    (hentry : after.table.get layer.id = sweep.table.get layer.id) :
    plan.Written layer after := by
  unfold Written
  rw [hagrees.scalesFor, hentry]
  exact h

/-- The entry of the layer has the scales that deriving it would give, and its requirements are
met. -/
structure Settled (plan : SweepPlan) (layer : Layer) (sweep : Sweep) : Prop where
  scales : (sweep.table.get layer.id).setScales (plan.scalesFor layer sweep) =
    sweep.table.get layer.id
  met : plan.Met layer sweep

theorem Settled.written (h : plan.Settled layer sweep) : plan.Written layer sweep := h.scales

theorem Settled.output_eq (h : plan.Settled layer sweep) :
    sweep.outputScale layer.id = (plan.scalesFor layer sweep).output :=
  h.written.output_eq

theorem Settled.input_eq (h : plan.Settled layer sweep) :
    (sweep.table.get layer.id).input.scale = (plan.scalesFor layer sweep).input :=
  h.written.input_eq

theorem Settled.weights_eq (h : plan.Settled layer sweep)
    (hkind : layer.kind.hasWeights = true) :
    ((sweep.table.get layer.id).weights.scale, (sweep.table.get layer.id).bias.scale) =
      plan.limited layer (plan.inputOf layer sweep) sweep :=
  h.written.weights_eq hkind

/-- The bias scale of a settled layer is its output scale before capping. -/
theorem Settled.bias_eq (h : plan.Settled layer sweep) (hkind : layer.kind.hasWeights = true) :
    (sweep.table.get layer.id).bias.scale =
      (plan.limited layer (plan.inputOf layer sweep) sweep).2 :=
  h.written.bias_eq hkind

/-- What settles a layer lies at or before it. -/
theorem Settled.congr (hplan : plan.Ordered) (h : plan.Settled layer sweep)
    (hlayer : plan.network.layer? id = some layer)
    (hentries : ∀ j ≤ id, after.table.get j = sweep.table.get j)
    (hcaps : ∀ j ≤ id, after.cap? j = sweep.cap? j)
    (hconflicts : sweep.conflicts ⊆ after.conflicts) : plan.Settled layer after := by
  have hid := hplan.formed.id_eq hlayer
  have hagrees := agrees_of_entries hplan hlayer hentries (hcaps id le_rfl)
  refine ⟨h.written.congr hagrees (hid ▸ hentries id le_rfl),
    h.met.congr hagrees (fun p hp q hq => hcaps q ?_) hconflicts⟩
  -- Caps go back in the order of the network, so they are placed before the layer.
  have hbefore := hplan.formed.inputs_lt hlayer p hp
  exact ((hplan.formed.mem_frontier.1 hq).le hplan.formed).trans hbefore.le

/-- What every sweep keeps: the layers before `k` are the processed ones and are settled. -/
structure Consistent (plan : SweepPlan) (k : Nat) (sweep : Sweep) : Prop where
  atLayer : sweep.AtLayer plan.network.size k
  size_le : plan.network.size ≤ sweep.table.size
  settled : ∀ {id layer}, plan.network.layer? id = some layer → id < k → plan.Settled layer sweep

end SweepPlan

end LayerQuant
