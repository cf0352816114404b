import Mathlib
import LayerQuant.Proofs.SoundSweep

/-!
# Unmet requirements are reported

After a successful run the inputs of a layer may still differ in scale, and a weighted layer may
still have given up precision. `run_reports_unmet` says that this is never silent: everything that
such a requirement reaches is a graph input, and each of them has a conflict with the layer. The
reason is `output_le_of_traces`: a cap that is held anywhere behind a producer keeps the producer
itself below it.
-/

namespace LayerQuant

namespace SweepPlan

open Binary

variable {plan : SweepPlan} {sweep : Sweep} {layer : Layer} {id p q k : Nat} {cap bound : Single}

/-- The output scale of a layer other than a graph input is under its cap. -/
theorem exists_capped (plan : SweepPlan) (sweep : Sweep) (hkind : layer.kind ≠ .input) :
    ∃ scale, (plan.scalesFor layer sweep).output = sweep.capped layer.id scale := by
  by_cases hmemory : layer.kind = .memory
  · unfold scalesFor
    simp only [hmemory]
    exact ⟨_, rfl⟩
  cases hweights : layer.kind.hasWeights with
  | true =>
      rw [scalesFor_of_weighted hweights]
      exact ⟨_, rfl⟩
  | false =>
      rw [scalesFor_of_plain hkind hmemory hweights]
      exact ⟨_, rfl⟩

/-- A layer that lets caps pass takes over the scale of its inputs, under its cap. -/
theorem scalesFor_of_passes (h : layer.stopsCaps = false) :
    (plan.scalesFor layer sweep).output =
      sweep.capped layer.id (plan.inputOf layer sweep) := by
  unfold Layer.stopsCaps Layer.isInput at h
  unfold scalesFor plainOutput
  cases hkind : layer.kind <;>
    simp_all [Kind.canRescale, Kind.altersRange, Kind.hasWeights]

theorem capped_le_cap (hcap : sweep.cap? id = some cap) (hnumber : cap.isNaN = false)
    (scale : Single) : sweep.capped id scale ≤ cap := by
  unfold Sweep.capped
  rw [hcap]
  exact minimum_le_right hnumber

theorem capped_le (scale : Single) (hnumber : scale.isNaN = false) :
    sweep.capped id scale ≤ scale := by
  unfold Sweep.capped
  cases sweep.cap? id with
  | none => exact le_refl_of_number hnumber
  | some cap => exact minimum_le_left hnumber

/-- The inputs of a layer arrive at no more than the scale of any of them. -/
theorem inputOf_le (plan : SweepPlan) (hp : p ∈ layer.inputs)
    (hnumber : (sweep.outputScale p).isNaN = false) :
    plan.inputOf layer sweep ≤ sweep.outputScale p := by
  have hmem : sweep.outputScale p ∈ layer.inputs.map sweep.outputScale :=
    List.mem_map.2 ⟨p, hp, rfl⟩
  unfold inputOf
  cases hleast : smallest? (layer.inputs.map sweep.outputScale) with
  | none =>
      rw [smallest?_eq_none.1 hleast] at hmem
      cases hmem
  | some least => exact (isSmallest_of_smallest? hleast).le hmem hnumber

/-- A cap below the bound at the end of a trace keeps the start of the trace below it. -/
theorem Sound.output_le_of_traces (hplan : plan.Standard)
    (h : plan.Sound plan.network.size sweep) (htraces : plan.network.Traces p q)
    (hinput : ∀ {layer}, plan.network.layer? q = some layer → layer.isInput = false)
    (hcap : sweep.cap? q = some cap) (hbound : cap ≤ bound) : sweep.outputScale p ≤ bound := by
  induction htraces with
  | @stop id layer hlayer _ =>
      have hsettled := h.settled hlayer (Network.lt_size hlayer)
      have hid := hplan.formed.id_eq hlayer
      have hkind : layer.kind ≠ .input := by simpa [Layer.isInput] using hinput hlayer
      obtain ⟨scale, hscale⟩ := plan.exists_capped sweep hkind
      rw [← hid, hsettled.output_eq, hscale]
      exact le_trans' (capped_le_cap (hid.symm ▸ hcap) (number_of_le_left hbound) scale) hbound
  | @through id p q layer hlayer hpasses hp _ ih =>
      have hsettled := h.settled hlayer (Network.lt_size hlayer)
      have hproducer := ih hinput hcap
      have hinputs := plan.inputOf_le hp (number_of_le_left hproducer)
      rw [← hplan.formed.id_eq hlayer, hsettled.output_eq, scalesFor_of_passes hpasses]
      exact le_trans' (capped_le _ (number_of_le_left hinputs)) (le_trans' hinputs hproducer)

/-- Everything that a requirement on the producer `p` reaches is a graph input, and each of these
has a conflict with the layer `id`. -/
def Reported (network : Network) (sweep : Sweep) (id p : Nat) : Prop :=
  ∀ q, network.Traces p q →
    (∃ layer, network.layer? q = some layer ∧ layer.kind = .input) ∧
      ∃ conflict ∈ sweep.conflicts, conflict.layer = id ∧ conflict.input = q

/-- A cap that is placed on a producer and still exceeded is reported. -/
theorem Sound.reported (hplan : plan.Standard) (h : plan.Sound plan.network.size sweep)
    (hplaced : plan.Placed cap id sweep p) (hnumber : cap.isNaN = false)
    (hexceeds : ¬ sweep.outputScale p ≤ cap) : Reported plan.network sweep id p := by
  intro q htraces
  obtain ⟨layer, hlayer, _⟩ := htraces.exists_layer
  obtain ⟨hconflict, hcap⟩ := hplaced q (hplan.formed.mem_frontier.2 htraces) layer hlayer
  cases hinput : layer.isInput with
  | true => exact ⟨⟨layer, hlayer, by simpa [Layer.isInput] using hinput⟩, hconflict hinput⟩
  | false =>
      obtain ⟨known, hknown, hloose⟩ := hcap hinput
      refine absurd (h.output_le_of_traces hplan htraces (fun hsome => ?_) hknown
        (le_of_not_lt' (h.caps hknown).1 hnumber hloose)) hexceeds
      rwa [← Option.some.inj (hlayer.symm.trans hsome)]

/-- If the inputs of a layer still differ in scale, or a weighted layer still has weights coarser
than one to stay within its limit, the producers that are at fault end in graph inputs only, and the
conflict with each of these is reported. -/
theorem run_reports_unmet {config : Config} {network : Network} {table : EdgeTable}
    {final : Sweep} (hbuilt : network.Built) (hvalid : config.validate = .ok ())
    (hplan : config.sweepPlan network = .ok plan)
    (hgiven : ∀ {id layer scale}, network.layer? id = some layer → layer.kind = .input →
      (table.get id).input.scale? = some scale → .zero < scale ∧ scale.isFinite = true)
    (hrun : plan.run (.start network table) = (final, .ok ()))
    (hlayer : network.layer? id = some layer) :
    (layer.kind ∉ [.input, .memory, .eltwise] → ∀ least,
      smallest? (layer.inputs.map final.outputScale) = some least → ∀ p ∈ layer.inputs,
        scaleTolerance * final.outputScale p < final.outputScale p - least →
          Reported network final id p) ∧
    (layer.kind.hasWeights = true → ∀ limit, plan.outputLimit? final id = some limit →
      limit < (final.table.get id).input.scale * plan.weightScale layer →
      limit / (final.table.get id).input.scale < .ofNat .single 1 →
        ∀ p ∈ layer.inputs, Reported network final id p) := by
  obtain ⟨hstandard, rfl, _⟩ := standard_of_sweepPlan hbuilt hvalid hplan
  obtain ⟨_, _, hsound⟩ := run_reaches hstandard hgiven hrun
  have hsettled := hsound.settled hlayer (Network.lt_size hlayer)
  have hid := hstandard.formed.id_eq hlayer
  have hunsigned : ∀ p ∈ layer.inputs, (final.outputScale p).Unsigned := by
    intro p hp
    have hlt := hstandard.formed.inputs_lt hlayer p hp
    exact hsound.unsigned_output hstandard (hlt.trans (Network.lt_size hlayer))
  constructor
  · intro hkind least hleast p hp hfiner
    have huniform : layer.kind.needsUniformInputs = true := by
      cases hlayer : layer.kind <;> simp_all [Kind.needsUniformInputs]
    have hmemory : layer.kind ≠ .memory := fun heq => hkind (by simp [heq])
    have hplaced := hsettled.met.inputs hmemory huniform least hleast p hp hfiner
    rw [hid] at hplaced
    have hnumber := number_of_sub (number_of_lt_right hfiner)
    -- A producer that is at most the smallest scale does not exceed it by more than the tolerance.
    refine hsound.reported hstandard hplaced hnumber fun hle => ?_
    obtain ⟨producer, hproducer, heq⟩ :=
      List.mem_map.1 (isSmallest_of_smallest? hleast).1
    have hunsignedLeast : least.Unsigned := heq ▸ hunsigned producer hproducer
    exact not_lt_sub (hunsigned p hp) hunsignedLeast
      (unsigned_mul (by trivial) (hunsigned p hp)) hle hfiner
  · intro hkind limit hlimit hexceeds hcoarse p hp
    have hinput : (final.table.get id).input.scale = plan.inputOf layer final := by
      rw [← hid, hsettled.input_eq, scalesFor_of_weighted hkind]
    rw [hinput] at hexceeds hcoarse
    have hplaced := hsettled.met.limit hkind limit (by rwa [hid]) hexceeds hcoarse p hp
    rw [hid] at hplaced
    have hnumber := number_of_lt_left hexceeds
    -- A producer within the limit brings the input there, and the weight scale to one or more.
    refine hsound.reported hstandard hplaced hnumber fun hle => ?_
    have harrives := plan.inputOf_le hp (number_of_le_left hle)
    exact not_div_lt_one (plan.unsigned_inputOf hstandard hunsigned)
      (unsigned_outputLimit hstandard (fun hcap => (hsound.caps hcap).2) hlimit)
      (le_trans' harrives hle) hcoarse

/-- Two inputs and a layer that puts them together. -/
def joined : Network where
  layers := #[{ id := 0, name := "left", kind := .input },
    { id := 1, name := "right", kind := .input },
    { id := 2, name := "joined", kind := .concat, inputs := [0, 1] }]
  inputs := [0, 1]

theorem joined_built : joined.Built := by
  have hleft : Network.addInput {} "left" =
      .ok (⟨#[{ id := 0, name := "left", kind := .input }], [0]⟩, 0) := by cbv
  have hright : Network.addInput ⟨#[{ id := 0, name := "left", kind := .input }], [0]⟩ "right" =
      .ok (⟨#[{ id := 0, name := "left", kind := .input },
        { id := 1, name := "right", kind := .input }], [0, 1]⟩, 1) := by cbv
  have hconcat : Network.addLayer ⟨#[{ id := 0, name := "left", kind := .input },
      { id := 1, name := "right", kind := .input }], [0, 1]⟩ "joined" .concat [0, 1] =
      .ok (joined, 2) := by cbv
  exact .addLayer (.addInput (.addInput .empty hleft) hright) hconcat

/-- The left input of `joined` has the scale one, the right one two. -/
def joinedTable : EdgeTable where
  layers := #[{ input := { scale? := some (.ofNat .single 1) } },
    { input := { scale? := some (.ofNat .single 2) } }, {}]

/-- The plan that the default configuration makes for `joined`. -/
def joinedPlan : SweepPlan where
  network := joined
  order := [0, 1, 2]
  rule := {}
  defaultScale := .ofNat .single 1
  precision := .int16
  maxRestarts := 1024

theorem joined_reports_unmet :
    Config.validate {} = .ok () ∧ Config.sweepPlan {} joined = .ok joinedPlan ∧
      (joinedPlan.run (.start joined joinedTable)).2 = .ok () ∧
      Reported joined (joinedPlan.run (.start joined joinedTable)).1 2 1 := by
  have hvalid : Config.validate {} = .ok () := by decide +kernel
  have hplan : Config.sweepPlan {} joined = .ok joinedPlan := by
    have horder : joined.topologicalOrder = .ok [0, 1, 2] := by cbv
    rw [Config.sweepPlan, horder]
    rfl
  have hok : (joinedPlan.run (.start joined joinedTable)).2 = .ok () := by decide +kernel
  have hgiven : ∀ {id layer scale}, joined.layer? id = some layer → layer.kind = .input →
      (joinedTable.get id).input.scale? = some scale → .zero < scale ∧ scale.isFinite = true := by
    intro id layer scale _ _ hscale
    rcases id with _ | _ | _ | id
    · obtain rfl := Option.some.inj hscale
      exact ⟨by decide +kernel, by decide +kernel⟩
    · obtain rfl := Option.some.inj hscale
      exact ⟨by decide +kernel, by decide +kernel⟩
    · cases hscale
    · simp [joinedTable, EdgeTable.get] at hscale
  have hlayer : joined.layer? 2 =
      some { id := 2, name := "joined", kind := .concat, inputs := [0, 1] } := rfl
  refine ⟨hvalid, hplan, hok, ?_⟩
  exact (run_reports_unmet joined_built hvalid hplan hgiven (Prod.ext rfl hok) hlayer).1
    (by decide) (.ofNat .single 1) (by decide +kernel) 1 (by decide) (by decide +kernel)

end SweepPlan

end LayerQuant
