import Mathlib
import LayerQuant.Proofs.Frontier
import LayerQuant.Proofs.Unsigned
import LayerQuant.Sweep.Derivation

/-!
# What deriving a layer does

Deriving a layer pushes caps and conflicts (`derive_pushed`). When it yields scales it has tightened
no cap: the scales are `scalesFor`, a function of the table and the caps, and every requirement of
the layer is held by a cap or noted as a conflict (`Met`). Read `derive_eq_some` first.
-/

namespace LayerQuant

namespace Sweep

/-- The sweep differs from the first one by further conflicts only. -/
def Noted (before after : Sweep) : Prop :=
  ∃ noted, before.conflicts ⊆ noted ∧ after = { before with conflicts := noted }

variable {before between after : Sweep}

theorem Noted.refl (sweep : Sweep) : Noted sweep sweep := ⟨_, List.Subset.refl _, rfl⟩

theorem Noted.trans (h : Noted before between) (h' : Noted between after) :
    Noted before after := by
  obtain ⟨noted, hnoted, rfl⟩ := h
  obtain ⟨noted', hnoted', rfl⟩ := h'
  exact ⟨noted', List.Subset.trans hnoted hnoted', rfl⟩

/-- A noted conflict is in the list, for its layer and input. -/
theorem noted_noteConflict (sweep : Sweep) (conflict : ScaleConflict) :
    Noted sweep (sweep.noteConflict conflict) ∧
      ∃ c ∈ (sweep.noteConflict conflict).conflicts,
        c.layer = conflict.layer ∧ c.input = conflict.input := by
  unfold noteConflict
  split
  · rename_i hknown
    obtain ⟨c, hc, heq⟩ := List.any_eq_true.1 hknown
    exact ⟨Noted.refl sweep, c, hc, by simpa using heq⟩
  · exact ⟨⟨_, List.subset_append_left _ _, rfl⟩, conflict, by simp, rfl, rfl⟩

/-- A conflict of the layer with the graph input is noted. -/
def HasConflict (sweep : Sweep) (consumer input : Nat) : Prop :=
  ∃ c ∈ sweep.conflicts, c.layer = consumer ∧ c.input = input

/-- A conflict that is known already is not noted again. -/
theorem noteConflict_of_mem {sweep : Sweep} {conflict : ScaleConflict}
    (h : ∃ c ∈ sweep.conflicts, c.layer = conflict.layer ∧ c.input = conflict.input) :
    sweep.noteConflict conflict = sweep := by
  obtain ⟨c, hc, hlayer, hinput⟩ := h
  refine if_pos (List.any_eq_true.2 ⟨c, hc, ?_⟩)
  simp [hlayer, hinput]

/-- A cap is tighter than what the layer has: it has no cap, or one that is above. -/
def Yields (sweep : Sweep) (cap : Single) (id : Nat) : Prop :=
  ∀ known, sweep.cap? id = some known → cap < known

end Sweep

namespace SweepPlan

variable {plan : SweepPlan} {sweep after : Sweep} {layer : Layer} {cap : Single}
  {consumer id : Nat}

/-- A cap on a layer would change nothing: a graph input has a conflict with the consumer, and any
other layer has a cap that the new one is not below. -/
def HoldsCap (plan : SweepPlan) (cap : Single) (consumer : Nat) (sweep : Sweep) (id : Nat) : Prop :=
  ∀ layer, plan.network.layer? id = some layer →
    (layer.isInput = true → ∃ c ∈ sweep.conflicts, c.layer = consumer ∧ c.input = id) ∧
    (layer.isInput = false → ∃ known, sweep.cap? id = some known ∧ ¬ cap < known)

/-- Every layer that a cap on the given one reaches holds it. -/
def Placed (plan : SweepPlan) (cap : Single) (consumer : Nat) (sweep : Sweep) (start : Nat) :
    Prop :=
  ∀ id ∈ plan.network.frontier start, plan.HoldsCap cap consumer sweep id

theorem HoldsCap.noted {id : Nat} (h : plan.HoldsCap cap consumer sweep id)
    (hnoted : sweep.Noted after) : plan.HoldsCap cap consumer after id := by
  obtain ⟨noted, hsubset, rfl⟩ := hnoted
  intro layer hlayer
  obtain ⟨hinput, hother⟩ := h layer hlayer
  refine ⟨fun hkind => ?_, hother⟩
  obtain ⟨c, hc, heq⟩ := hinput hkind
  exact ⟨c, hsubset hc, heq⟩

/-- The first sweep can become the second one by noting conflicts and by tightening caps to values
with the property `P`. -/
inductive Pushed (plan : SweepPlan) (P : Single → Prop) : Sweep → Sweep → Prop where
  | refl (sweep : Sweep) : Pushed plan P sweep sweep
  | note {before after : Sweep} {conflict : ScaleConflict} :
      Pushed plan P before after → Pushed plan P before (after.noteConflict conflict)
  | tighten {before after : Sweep} {id : Nat} {layer : Layer} {cap : Single} :
      Pushed plan P before after → P cap → plan.network.layer? id = some layer →
      layer.kind.canRescale = true → (∀ known, after.cap? id = some known → cap < known) →
      Pushed plan P before
        { after.unprocess (plan.onwards id) with caps := after.caps.setIfInBounds id (some cap) }

theorem Pushed.trans {P : Single → Prop} {before between after : Sweep}
    (h : plan.Pushed P before between) (h' : plan.Pushed P between after) :
    plan.Pushed P before after := by
  induction h' with
  | refl => exact h
  | note _ ih => exact .note ih
  | tighten _ hcap hlayer hkind hknown ih => exact .tighten ih hcap hlayer hkind hknown

theorem Pushed.mono {P Q : Single → Prop} {before after : Sweep} (hPQ : ∀ cap, P cap → Q cap)
    (h : plan.Pushed P before after) : plan.Pushed Q before after := by
  induction h with
  | refl => exact .refl _
  | note _ ih => exact .note ih
  | tighten _ hcap hlayer hkind hknown ih => exact .tighten ih (hPQ _ hcap) hlayer hkind hknown

/-! ## Placing caps -/

/-- A cap that is held is not placed again. -/
theorem HoldsCap.placeCap_eq (h : plan.HoldsCap cap consumer sweep id) (tightened : Bool) :
    plan.placeCap cap consumer (sweep, tightened) id = (sweep, tightened) := by
  unfold placeCap
  cases hlayer : plan.network.layer? id with
  | none => rfl
  | some layer =>
      obtain ⟨hinput, hother⟩ := h layer hlayer
      cases hkind : layer.isInput with
      | true =>
          simp only [hkind, if_true]
          rw [Sweep.noteConflict_of_mem (hinput hkind)]
      | false =>
          obtain ⟨known, hcap, hloose⟩ := hother hkind
          simp only [hkind, hcap, hloose, decide_false, Bool.false_eq_true, if_false]

/-- What the arrival of a cap at a layer can come to: it is held already, a conflict with a graph
input is noted, or the cap of another layer is tightened. -/
inductive CapArrives (plan : SweepPlan) (cap : Single) (consumer id : Nat)
    (state : Sweep × Bool) : Sweep × Bool → Prop where
  | held : plan.HoldsCap cap consumer state.1 id → CapArrives plan cap consumer id state state
  | noted {source : Layer} :
      plan.network.layer? id = some source → source.isInput = true →
      ¬ state.1.HasConflict consumer id →
      CapArrives plan cap consumer id state
        (state.1.noteConflict ⟨consumer, id, cap, state.1.outputScale id⟩, state.2)
  | tightened {layer : Layer} :
      plan.network.layer? id = some layer → layer.isInput = false → state.1.Yields cap id →
      CapArrives plan cap consumer id state
        ({ state.1.unprocess (plan.onwards id) with
          caps := state.1.caps.setIfInBounds id (some cap) }, true)

theorem placeCap_arrives (plan : SweepPlan) (cap : Single) (consumer id : Nat)
    (state : Sweep × Bool) :
    plan.CapArrives cap consumer id state (plan.placeCap cap consumer state id) := by
  obtain ⟨sweep, tightened⟩ := state
  have hheld (h : plan.HoldsCap cap consumer sweep id) : plan.CapArrives cap consumer id
      (sweep, tightened) (plan.placeCap cap consumer (sweep, tightened) id) := by
    rw [h.placeCap_eq]
    exact .held h
  cases hlayer : plan.network.layer? id with
  | none => exact hheld fun layer hsome => by simp [hlayer] at hsome
  | some layer =>
      cases hkind : layer.isInput with
      | true =>
          by_cases hknown : sweep.HasConflict consumer id
          · refine hheld fun layer' hsome => ?_
            obtain rfl := Option.some.inj (hlayer.symm.trans hsome)
            exact ⟨fun _ => hknown, fun hother => by simp [hkind] at hother⟩
          · unfold placeCap
            simp only [hlayer, hkind, if_true]
            exact .noted hlayer hkind hknown
      | false =>
          by_cases hyields : sweep.Yields cap id
          · unfold placeCap
            simp only [hlayer, hkind, Bool.false_eq_true, if_false]
            cases hcap : sweep.cap? id with
            | none => exact .tightened hlayer hkind hyields
            | some known =>
                simp only [hyields known hcap, decide_true, if_true]
                exact .tightened hlayer hkind hyields
          · unfold Sweep.Yields at hyields
            push Not at hyields
            obtain ⟨known, hcap, hloose⟩ := hyields
            refine hheld fun layer' hsome => ?_
            obtain rfl := Option.some.inj (hlayer.symm.trans hsome)
            exact ⟨fun hinput => by simp [hkind] at hinput, fun _ => ⟨known, hcap, hloose⟩⟩

theorem placeCap_pushed (state : Sweep × Bool) {id : Nat}
    (hstops : ∀ {layer}, plan.network.layer? id = some layer → layer.stopsCaps = true) :
    plan.Pushed (· = cap) state.1 (plan.placeCap cap consumer state id).1 := by
  have harrives := plan.placeCap_arrives cap consumer id state
  generalize plan.placeCap cap consumer state id = result at harrives
  cases harrives with
  | held => exact .refl _
  | noted => exact .note (.refl _)
  | @tightened layer hlayer hkind hyields =>
      have hrescales : layer.kind.canRescale = true := by
        simpa [Layer.stopsCaps, hkind] using hstops hlayer
      exact .tighten (.refl _) rfl hlayer hrescales hyields

/-- A cap that tightens nothing is held. -/
theorem placeCap_held {state : Sweep × Bool} {id : Nat}
    (h : (plan.placeCap cap consumer state id).2 = false) :
    state.2 = false ∧ state.1.Noted (plan.placeCap cap consumer state id).1 ∧
      plan.HoldsCap cap consumer (plan.placeCap cap consumer state id).1 id := by
  have harrives := plan.placeCap_arrives cap consumer id state
  generalize plan.placeCap cap consumer state id = result at h harrives
  cases harrives with
  | held hheld => exact ⟨h, Sweep.Noted.refl _, hheld⟩
  | @noted source hlayer hkind _ =>
      obtain ⟨hnoted, hconflict⟩ := state.1.noted_noteConflict
        ⟨consumer, id, cap, state.1.outputScale id⟩
      refine ⟨h, hnoted, fun layer hsome => ?_⟩
      obtain rfl := Option.some.inj (hlayer.symm.trans hsome)
      exact ⟨fun _ => hconflict, fun hother => by simp [hkind] at hother⟩
  | tightened => cases h

theorem foldl_placeCap_pushed {ids : List Nat} (state : Sweep × Bool)
    (hstops : ∀ id ∈ ids, ∀ {layer}, plan.network.layer? id = some layer →
      layer.stopsCaps = true) :
    plan.Pushed (· = cap) state.1 (ids.foldl (plan.placeCap cap consumer) state).1 := by
  induction ids generalizing state with
  | nil => exact .refl _
  | cons id rest ih =>
      exact (placeCap_pushed state (hstops id List.mem_cons_self)).trans
        (ih _ fun other hother => hstops other (List.mem_cons_of_mem _ hother))

theorem foldl_placeCap_held {ids : List Nat} {state : Sweep × Bool}
    (h : (ids.foldl (plan.placeCap cap consumer) state).2 = false) :
    state.2 = false ∧ state.1.Noted (ids.foldl (plan.placeCap cap consumer) state).1 ∧
      ∀ id ∈ ids,
        plan.HoldsCap cap consumer (ids.foldl (plan.placeCap cap consumer) state).1 id := by
  induction ids generalizing state with
  | nil => exact ⟨h, Sweep.Noted.refl _, by simp⟩
  | cons id rest ih =>
      obtain ⟨hfirst, hrest, hheld⟩ := ih h
      obtain ⟨hflag, hnoted, hid⟩ := placeCap_held hfirst
      refine ⟨hflag, hnoted.trans hrest, fun other hother => ?_⟩
      rcases List.mem_cons.1 hother with rfl | hother
      · exact hid.noted hrest
      · exact hheld other hother

/-- Caps on several layers are placed one by one on the layers that they reach. -/
theorem pushCaps_eq (starts : List Nat) :
    plan.pushCaps starts cap consumer sweep =
      (starts.flatMap plan.network.frontier).foldl (plan.placeCap cap consumer) (sweep, false) := by
  rw [List.foldl_flatMap]
  rfl

theorem pushCaps_pushed (starts : List Nat) :
    plan.Pushed (· = cap) sweep (plan.pushCaps starts cap consumer sweep).1 := by
  rw [pushCaps_eq]
  refine foldl_placeCap_pushed (sweep, false) fun id hid {layer} hlayer => ?_
  obtain ⟨start, _, hfrontier⟩ := List.mem_flatMap.1 hid
  exact Network.stopsCaps_of_mem_frontier hfrontier hlayer

/-- Caps that tighten nothing are placed already. -/
theorem pushCaps_placed {starts : List Nat}
    (h : (plan.pushCaps starts cap consumer sweep).2 = false) :
    sweep.Noted (plan.pushCaps starts cap consumer sweep).1 ∧
      ∀ start ∈ starts,
        plan.Placed cap consumer (plan.pushCaps starts cap consumer sweep).1 start := by
  rw [pushCaps_eq] at h ⊢
  obtain ⟨_, hnoted, hheld⟩ := foldl_placeCap_held h
  exact ⟨hnoted, fun start hstart id hid =>
    hheld id (List.mem_flatMap.2 ⟨start, hstart, hid⟩)⟩

/-! ## The scales of a layer -/

/-- The scale at which the inputs of a layer arrive. -/
def inputOf (plan : SweepPlan) (layer : Layer) (sweep : Sweep) : Single :=
  (Binary.smallest? (layer.inputs.map sweep.outputScale)).getD plan.defaultScale

/-- The weight scale and output scale of a weighted layer, with the output kept to its limit. -/
def limited (plan : SweepPlan) (layer : Layer) (input : Single) (sweep : Sweep) :
    Single × Single :=
  let weights := plan.weightScale layer
  match plan.outputLimit? sweep layer.id with
  | none => (weights, input * weights)
  | some limit =>
    if limit < input * weights then (limit / input, limit) else (weights, input * weights)

/-- The scales of a layer by the table and the caps of a sweep. -/
def scalesFor (plan : SweepPlan) (layer : Layer) (sweep : Sweep) : DerivedScales :=
  match layer.kind with
  | .input =>
    let scale := (sweep.table.get layer.id).input.scale?.getD plan.defaultScale
    { input := scale, output := scale }
  | .memory =>
    let scale := sweep.capped layer.id ((plan.rangeScale? sweep layer.id).getD plan.defaultScale)
    { input := scale, output := scale }
  | kind =>
    let input := plan.inputOf layer sweep
    if kind.hasWeights then
      let (weights, output) := plan.limited layer input sweep
      { input, output := sweep.capped layer.id output, weights? := some (weights, output) }
    else { input, output := sweep.capped layer.id (plan.plainOutput layer input sweep) }

/-- The inputs of a layer that must arrive at one scale do so, up to the tolerance, or are capped at
the smallest one as far as they can follow. -/
def InputsMet (plan : SweepPlan) (layer : Layer) (sweep : Sweep) : Prop :=
  layer.kind.needsUniformInputs = true → ∀ least,
    Binary.smallest? (layer.inputs.map sweep.outputScale) = some least → ∀ p ∈ layer.inputs,
      scaleTolerance * sweep.outputScale p < sweep.outputScale p - least →
        plan.Placed least layer.id sweep p

/-- The output of a weighted layer is within its limit, or can be brought there without a weight
scale below one, or the inputs are capped at the limit as far as they can follow. -/
def LimitMet (plan : SweepPlan) (layer : Layer) (sweep : Sweep) : Prop :=
  ∀ limit, plan.outputLimit? sweep layer.id = some limit →
    limit < plan.inputOf layer sweep * plan.weightScale layer →
    limit / plan.inputOf layer sweep < .ofNat .single 1 →
      ∀ p ∈ layer.inputs, plan.Placed limit layer.id sweep p

/-- The requirements of a layer on its inputs are met as far as they can be. -/
structure Met (plan : SweepPlan) (layer : Layer) (sweep : Sweep) : Prop where
  inputs : layer.kind ≠ .memory → plan.InputsMet layer sweep
  limit : layer.kind.hasWeights = true → plan.LimitMet layer sweep

/-- The values that deriving a layer can cap its producers at: the smallest scale of its inputs, or
the limit of its output. -/
def CapFor (plan : SweepPlan) (layer : Layer) (sweep : Sweep) (cap : Single) : Prop :=
  cap.isNaN = false ∧
    (Binary.smallest? (layer.inputs.map sweep.outputScale) = some cap ∨
      layer.kind.hasWeights = true ∧ plan.outputLimit? sweep layer.id = some cap)

theorem CapFor.noted (hnoted : sweep.Noted after) (h : plan.CapFor layer after cap) :
    plan.CapFor layer sweep cap := by
  obtain ⟨noted, _, rfl⟩ := hnoted
  exact h

theorem scalesFor_noted (hnoted : sweep.Noted after) :
    plan.scalesFor layer after = plan.scalesFor layer sweep := by
  obtain ⟨noted, _, rfl⟩ := hnoted
  rfl

theorem InputsMet.noted (hnoted : sweep.Noted after) (h : plan.InputsMet layer sweep) :
    plan.InputsMet layer after := by
  have hheld : ∀ {cap : Single} {consumer start : Nat}, plan.Placed cap consumer sweep start →
      plan.Placed cap consumer after start := by
    intro cap consumer start hplaced id hid
    exact (hplaced id hid).noted hnoted
  obtain ⟨noted, _, rfl⟩ := hnoted
  intro hkind least hleast p hp hfiner
  exact hheld (h hkind least hleast p hp hfiner)

/-- Finding the input scale of a layer pushes only the smallest scale of its inputs. -/
theorem inputScale_pushed :
    plan.Pushed (plan.CapFor layer sweep) sweep (plan.inputScale layer sweep).1 := by
  unfold inputScale
  cases hleast : Binary.smallest? (layer.inputs.map sweep.outputScale) with
  | none => exact .refl _
  | some least =>
      cases huniform : layer.kind.needsUniformInputs with
      | false =>
          simp only [Bool.false_eq_true, if_false]
          exact .refl _
      | true =>
          simp only [if_true]
          cases hfiner : layer.inputs.filter fun id =>
              decide (scaleTolerance * sweep.outputScale id < sweep.outputScale id - least) with
          | nil => exact .refl _
          | cons p rest =>
              -- A producer is finer than the smallest scale, so that scale is a number.
              have hlt : scaleTolerance * sweep.outputScale p < sweep.outputScale p - least := by
                have hmem : p ∈ layer.inputs.filter fun id => decide
                    (scaleTolerance * sweep.outputScale id < sweep.outputScale id - least) := by
                  rw [hfiner]
                  exact List.mem_cons_self
                simpa using (List.mem_filter.1 hmem).2
              have hnumber : least.isNaN = false :=
                Binary.number_of_sub (Binary.number_of_lt_right hlt)
              refine (pushCaps_pushed _).mono fun cap hcap => ?_
              subst hcap
              exact ⟨hnumber, Or.inl hleast⟩

/-- An input scale that is found is the smallest one, and the inputs of the layer are met. -/
theorem inputScale_eq_some {input : Single} (h : (plan.inputScale layer sweep).2 = some input) :
    sweep.Noted (plan.inputScale layer sweep).1 ∧ input = plan.inputOf layer sweep ∧
      plan.InputsMet layer (plan.inputScale layer sweep).1 := by
  unfold inputScale at h ⊢
  cases hleast : Binary.smallest? (layer.inputs.map sweep.outputScale) with
  | none =>
      simp only [hleast] at h ⊢
      refine ⟨Sweep.Noted.refl _, by simp [inputOf, hleast, Option.some.inj h], ?_⟩
      intro _ least hsome
      rw [hleast] at hsome
      cases hsome
  | some least =>
      cases huniform : layer.kind.needsUniformInputs with
      | false =>
          simp only [hleast, huniform, Bool.false_eq_true, if_false] at h ⊢
          refine ⟨Sweep.Noted.refl _, by simp [inputOf, hleast, Option.some.inj h], ?_⟩
          intro hkind
          rw [huniform] at hkind
          cases hkind
      | true =>
          simp only [hleast, huniform, if_true] at h ⊢
          split at h
          · cases h
          · rename_i hloose
            obtain ⟨hnoted, hplaced⟩ := pushCaps_placed (by simpa using hloose)
            refine ⟨hnoted, by simp [inputOf, hleast, Option.some.inj h], ?_⟩
            intro _ least' hsome p hp hfiner
            obtain ⟨noted, _, hafter⟩ := hnoted
            rw [hafter] at hsome hfiner
            obtain rfl := Option.some.inj (hleast.symm.trans hsome)
            exact hplaced p (List.mem_filter.2 ⟨hp, decide_eq_true hfiner⟩)

/-- Finding the scales of a weighted layer pushes only the limit of its output. -/
theorem weightedScales_pushed (hkind : layer.kind.hasWeights = true) (input : Single) :
    plan.Pushed (plan.CapFor layer sweep) sweep (plan.weightedScales layer input sweep).1 := by
  unfold weightedScales
  cases hlimit : plan.outputLimit? sweep layer.id with
  | none => exact .refl _
  | some limit =>
      by_cases hexceeds : limit < input * plan.weightScale layer
      · by_cases hcoarse : limit / input < .ofNat .single 1
        · simp only [hexceeds, hcoarse, if_true]
          refine (pushCaps_pushed _).mono fun cap hcap => ?_
          subst hcap
          exact ⟨Binary.number_of_lt_left hexceeds, Or.inr ⟨hkind, hlimit⟩⟩
        · simp only [hexceeds, hcoarse, if_true, if_false]
          exact .refl _
      · simp only [hexceeds, if_false]
        exact .refl _

/-- Weighted scales that are found are the limited ones, and the limit of the layer is met. -/
theorem weightedScales_eq_some {scales : Single × Single}
    (h : (plan.weightedScales layer (plan.inputOf layer sweep) sweep).2 = some scales) :
    sweep.Noted (plan.weightedScales layer (plan.inputOf layer sweep) sweep).1 ∧
      scales = plan.limited layer (plan.inputOf layer sweep) sweep ∧
      plan.LimitMet layer (plan.weightedScales layer (plan.inputOf layer sweep) sweep).1 := by
  unfold weightedScales at h ⊢
  unfold limited
  cases hlimit : plan.outputLimit? sweep layer.id with
  | none =>
      simp only [hlimit] at h ⊢
      refine ⟨Sweep.Noted.refl _, (Option.some.inj h).symm, fun limit hsome => ?_⟩
      rw [hlimit] at hsome
      cases hsome
  | some limit =>
      by_cases hexceeds : limit < plan.inputOf layer sweep * plan.weightScale layer
      · by_cases hcoarse : limit / plan.inputOf layer sweep < .ofNat .single 1
        · simp only [hlimit, hexceeds, hcoarse, if_true] at h ⊢
          split at h
          · cases h
          · rename_i hloose
            obtain ⟨hnoted, hplaced⟩ := pushCaps_placed (by simpa using hloose)
            refine ⟨hnoted, (Option.some.inj h).symm, fun limit' hsome _ _ => ?_⟩
            obtain ⟨noted, _, hafter⟩ := hnoted
            rw [hafter] at hsome
            obtain rfl := Option.some.inj (hlimit.symm.trans hsome)
            exact hplaced
        · simp only [hlimit, hexceeds, hcoarse, if_true, if_false] at h ⊢
          refine ⟨Sweep.Noted.refl _, (Option.some.inj h).symm, fun limit' hsome _ hbelow => ?_⟩
          obtain rfl := Option.some.inj (hlimit.symm.trans hsome)
          exact absurd hbelow hcoarse
      · simp only [hlimit, hexceeds, if_false] at h ⊢
        refine ⟨Sweep.Noted.refl _, (Option.some.inj h).symm, fun limit' hsome habove => ?_⟩
        obtain rfl := Option.some.inj (hlimit.symm.trans hsome)
        exact absurd habove hexceeds

/-! ## Deriving -/

theorem derive_of_input (hkind : layer.kind = .input) :
    plan.derive layer sweep = (sweep, some (plan.scalesFor layer sweep)) := by
  unfold derive scalesFor
  rw [hkind]

theorem derive_of_memory (hkind : layer.kind = .memory) :
    plan.derive layer sweep = (sweep, some (plan.scalesFor layer sweep)) := by
  unfold derive scalesFor
  rw [hkind]

/-- How the scales of a layer follow from the scale of its inputs. -/
theorem derive_of_other (hinput : layer.kind ≠ .input) (hmemory : layer.kind ≠ .memory) :
    plan.derive layer sweep =
      match plan.inputScale layer sweep with
      | (sweep, none) => (sweep, none)
      | (sweep, some input) =>
        if layer.kind.hasWeights then
          match plan.weightedScales layer input sweep with
          | (sweep, none) => (sweep, none)
          | (sweep, some (weights, output)) =>
            (sweep, some
              { input, output := sweep.capped layer.id output, weights? := some (weights, output) })
        else
          (sweep, some
            { input, output := sweep.capped layer.id (plan.plainOutput layer input sweep) }) := by
  unfold derive
  cases hkind : layer.kind <;> first | rfl | contradiction

theorem scalesFor_of_weighted (hkind : layer.kind.hasWeights = true) :
    plan.scalesFor layer sweep =
      { input := plan.inputOf layer sweep
        output := sweep.capped layer.id (plan.limited layer (plan.inputOf layer sweep) sweep).2
        weights? := some (plan.limited layer (plan.inputOf layer sweep) sweep) } := by
  unfold scalesFor
  cases hlayer : layer.kind <;> simp_all [Kind.hasWeights]

theorem scalesFor_of_plain (hinput : layer.kind ≠ .input) (hmemory : layer.kind ≠ .memory)
    (hkind : layer.kind.hasWeights = false) :
    plan.scalesFor layer sweep =
      { input := plan.inputOf layer sweep
        output := sweep.capped layer.id
          (plan.plainOutput layer (plan.inputOf layer sweep) sweep) } := by
  unfold scalesFor
  cases hlayer : layer.kind <;> simp_all [Kind.hasWeights]

/-- Deriving a layer pushes only caps that the layer asks for. -/
theorem derive_pushed (plan : SweepPlan) (layer : Layer) (sweep : Sweep) :
    plan.Pushed (plan.CapFor layer sweep) sweep (plan.derive layer sweep).1 := by
  by_cases hinput : layer.kind = .input
  · rw [derive_of_input hinput]
    exact .refl _
  by_cases hmemory : layer.kind = .memory
  · rw [derive_of_memory hmemory]
    exact .refl _
  rw [derive_of_other hinput hmemory]
  have hpushed : plan.Pushed (plan.CapFor layer sweep) sweep (plan.inputScale layer sweep).1 :=
    inputScale_pushed
  cases hfound : plan.inputScale layer sweep with
  | mk found result =>
      rw [hfound] at hpushed
      cases result with
      | none => exact hpushed
      | some input =>
          cases hkind : layer.kind.hasWeights with
          | false => exact hpushed
          | true =>
              have hsome : (plan.inputScale layer sweep).2 = some input := by rw [hfound]
              have hnoted := (inputScale_eq_some hsome).1
              rw [hfound] at hnoted
              have hweighted : plan.Pushed (plan.CapFor layer sweep) found
                  (plan.weightedScales layer input found).1 :=
                (weightedScales_pushed hkind input).mono fun cap hcap => hcap.noted hnoted
              simp only [if_true]
              cases hscales : plan.weightedScales layer input found with
              | mk last result =>
                  rw [hscales] at hweighted
                  cases result with
                  | none => exact hpushed.trans hweighted
                  | some scales => exact hpushed.trans hweighted

/-- Scales that are derived are those of `scalesFor`, and the requirements of the layer are met. -/
theorem derive_eq_some {scales : DerivedScales} (h : (plan.derive layer sweep).2 = some scales) :
    sweep.Noted (plan.derive layer sweep).1 ∧ scales = plan.scalesFor layer sweep ∧
      plan.Met layer (plan.derive layer sweep).1 := by
  by_cases hinput : layer.kind = .input
  · rw [derive_of_input hinput] at h ⊢
    refine ⟨Sweep.Noted.refl _, (Option.some.inj h).symm, fun _ huniform => ?_, fun hkind => ?_⟩
    · simp [hinput, Kind.needsUniformInputs] at huniform
    · simp [hinput, Kind.hasWeights] at hkind
  by_cases hmemory : layer.kind = .memory
  · rw [derive_of_memory hmemory] at h ⊢
    refine ⟨Sweep.Noted.refl _, (Option.some.inj h).symm, fun hne => absurd hmemory hne,
      fun hkind => ?_⟩
    simp [hmemory, Kind.hasWeights] at hkind
  rw [derive_of_other hinput hmemory] at h ⊢
  cases hfound : plan.inputScale layer sweep with
  | mk found result =>
      simp only [hfound] at h ⊢
      cases result with
      | none => cases h
      | some input =>
          have hsome : (plan.inputScale layer sweep).2 = some input := by rw [hfound]
          obtain ⟨hnoted, hscale, hmet⟩ := inputScale_eq_some hsome
          rw [hfound] at hnoted hmet
          cases hkind : layer.kind.hasWeights with
          | false =>
              simp only [hkind, Bool.false_eq_true, if_false] at h ⊢
              refine ⟨hnoted, ?_, fun _ => hmet, fun htrue => by cases hkind.symm.trans htrue⟩
              obtain rfl := Option.some.inj h
              obtain ⟨noted, _, rfl⟩ := hnoted
              rw [scalesFor_of_plain hinput hmemory hkind, ← hscale]
              rfl
          | true =>
              simp only [hkind, if_true] at h ⊢
              -- The conflicts noted on the way change neither the inputs nor the limit.
              have hinputOf : input = plan.inputOf layer found := by
                obtain ⟨noted, _, rfl⟩ := hnoted
                exact hscale
              subst hinputOf
              cases hscales : plan.weightedScales layer (plan.inputOf layer found) found with
              | mk last result =>
                  simp only [hscales] at h ⊢
                  cases result with
                  | none => cases h
                  | some derived =>
                      have hderived : (plan.weightedScales layer (plan.inputOf layer found)
                          found).2 = some derived := by rw [hscales]
                      obtain ⟨hlast, hlimited, hlimit⟩ := weightedScales_eq_some hderived
                      rw [hscales] at hlast hlimit
                      refine ⟨hnoted.trans hlast, ?_, fun _ => hmet.noted hlast, fun _ => hlimit⟩
                      obtain rfl := Option.some.inj h
                      subst hlimited
                      obtain ⟨noted, _, rfl⟩ := hnoted
                      obtain ⟨noted', _, rfl⟩ := hlast
                      rw [scalesFor_of_weighted hkind]
                      rfl

end SweepPlan

end LayerQuant
