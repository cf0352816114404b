import Mathlib
import LayerQuant.Proofs.CheckedCaps
import LayerQuant.Proofs.SweepRun

/-!
# Sweeping with checked accesses

The checked form of the calls of a sweep: deriving one layer, listing the layers to derive, and the
run. The run has no result either if its passes do not end with every layer processed. Whatever the
calls before have left and however short the table is, all of them have the result of the forms
without checks (`transform?_eq`, `startPass?_eq`, `run?_eq`). Read `CheckedCaps` first.
-/

namespace LayerQuant

/-- The layer is among the first `size` ones, and so are its forward inputs. All of them are among
the first `entries` layers too. -/
structure Layer.Within (size entries : Nat) (layer : Layer) : Prop where
  lt_size : layer.id < size
  lt_entries : layer.id < entries
  inputs : ∀ p ∈ layer.inputs, p < size ∧ p < entries

namespace Sweep

/-- Writes the scales of a layer and marks it processed. -/
def settle? (sweep : Sweep) (id : Nat) (scales : DerivedScales) : Option Sweep := do
  let table ← sweep.table.modify? id (·.setScales scales)
  let processed ← write? sweep.processed id true
  some { sweep with table, processed }

/-- The sweeps differ in their flags, caps and conflicts only, and have them for as many layers. -/
structure Framed (before after : Sweep) : Prop where
  processed_size : after.processed.size = before.processed.size
  caps_size : after.caps.size = before.caps.size
  table : after.table = before.table
  restarts : after.restarts = before.restarts
  restartPending : after.restartPending = before.restartPending

variable {sweep after : Sweep} {size entries id : Nat}

theorem Indexed.framed (h : sweep.Indexed size entries) (hframed : sweep.Framed after) :
    after.Indexed size entries where
  processed_size := hframed.processed_size.trans h.processed_size
  caps_size := hframed.caps_size.trans h.caps_size
  table_size := (congrArg EdgeTable.size hframed.table).trans h.table_size

theorem Indexed.settle?_eq (h : sweep.Indexed size entries) (hsize : id < size)
    (hentry : id < entries) (scales : DerivedScales) :
    sweep.settle? id scales = some (sweep.settle id scales) ∧
      (sweep.settle id scales).Indexed size entries := by
  refine ⟨?_, ?_, h.caps_size, ?_⟩
  · unfold settle?
    rw [EdgeTable.modify?_eq (by rwa [h.table_size]), write?_eq (by rwa [h.processed_size])]
    rfl
  · exact (Array.size_setIfInBounds ..).trans h.processed_size
  · exact (EdgeTable.size_modify ..).trans h.table_size

end Sweep

namespace SweepPlan

/-! ## Deriving a layer -/

/-- The smallest scale of a layer's inputs. -/
def inputScale? (plan : SweepPlan) (positions : Array Nat) (layer : Layer) (sweep : Sweep) :
    Option (Sweep × Option Single) := do
  let scales ← layer.inputs.mapM fun id => (sweep.outputScale? id).map fun scale => (id, scale)
  match Binary.smallest? (scales.map (·.2)) with
  | none => some (sweep, some plan.defaultScale)
  | some least =>
    if layer.kind.needsUniformInputs then
      let finer := scales.filter fun (_, scale) => decide (scaleTolerance * scale < scale - least)
      let (sweep, tightened) ← plan.pushCaps? positions (finer.map (·.1)) least layer.id sweep
      some (sweep, if tightened then none else some least)
    else some (sweep, some least)

/-- The weight scale and output scale of a weighted layer. -/
def weightedScales? (plan : SweepPlan) (positions : Array Nat) (layer : Layer) (input : Single)
    (sweep : Sweep) : Option (Sweep × Option (Single × Single)) := do
  let weights := plan.weightScale layer
  let output := input * weights
  let entry ← sweep.table.entry? layer.id
  let cap? ← sweep.caps[layer.id]?
  match Binary.smallest? [entry.output.rangeScale? plan.rule, cap?].reduceOption with
  | none => some (sweep, some (weights, output))
  | some limit =>
    if limit < output then
      let needed := limit / input
      if needed < .ofNat .single 1 then
        let (sweep, tightened) ← plan.pushCaps? positions layer.inputs limit layer.id sweep
        some (sweep, if tightened then none else some (needed, limit))
      else some (sweep, some (needed, limit))
    else some (sweep, some (weights, output))

/-- The output scale of a layer without weights from the scale of its inputs. -/
def plainOutput? (plan : SweepPlan) (layer : Layer) (input : Single) (sweep : Sweep) :
    Option Single := do
  let entry ← sweep.table.entry? layer.id
  some
    (match layer.kind, entry.output.rangeScale? plan.rule with
      | .activation, some range => range
      | .eltwise, some range => input.minimum range
      | _, _ => input)

/-- The scales of a layer whose inputs arrive at the given scale. -/
def scalesFrom? (plan : SweepPlan) (positions : Array Nat) (layer : Layer) (input : Single)
    (sweep : Sweep) : Option (Sweep × Option DerivedScales) := do
  if layer.kind.hasWeights then
    match ← plan.weightedScales? positions layer input sweep with
    | (sweep, none) => some (sweep, none)
    | (sweep, some (weights, output)) =>
      let capped ← sweep.capped? layer.id output
      some (sweep, some { input, output := capped, weights? := some (weights, output) })
  else
    let output ← plan.plainOutput? layer input sweep
    let capped ← sweep.capped? layer.id output
    some (sweep, some { input, output := capped })

/-- Derives the scales of a layer. -/
def derive? (plan : SweepPlan) (positions : Array Nat) (layer : Layer) (sweep : Sweep) :
    Option (Sweep × Option DerivedScales) := do
  match layer.kind with
  | .input =>
    let entry ← sweep.table.entry? layer.id
    let scale := entry.input.scale?.getD plan.defaultScale
    some (sweep, some { input := scale, output := scale })
  | .memory =>
    let entry ← sweep.table.entry? layer.id
    let scale ← sweep.capped? layer.id
      ((entry.output.rangeScale? plan.rule).getD plan.defaultScale)
    some (sweep, some { input := scale, output := scale })
  | _ =>
    match ← plan.inputScale? positions layer sweep with
    | (sweep, none) => some (sweep, none)
    | (sweep, some input) => plan.scalesFrom? positions layer input sweep

variable {plan : SweepPlan} {sweep : Sweep} {layer : Layer} {entries id : Nat}

/-- Pushing caps changes flags, caps and conflicts only. -/
theorem Pushed.framed {P : Single → Prop} {before after : Sweep} (h : plan.Pushed P before after) :
    before.Framed after := by
  induction h with
  | refl => exact ⟨rfl, rfl, rfl, rfl, rfl⟩
  | @note middle conflict _ ih =>
      obtain ⟨⟨noted, _, heq⟩, _⟩ := middle.noted_noteConflict conflict
      rw [heq]
      exact ⟨ih.processed_size, ih.caps_size, ih.table, ih.restarts, ih.restartPending⟩
  | @tighten middle id layer cap _ _ _ _ _ ih =>
      exact ⟨(middle.size_unprocess _).trans ih.processed_size,
        (Array.size_setIfInBounds ..).trans ih.caps_size, ih.table, ih.restarts, ih.restartPending⟩

/-- The forward inputs of a layer that has an entry have one, as they come before it. -/
theorem Ordered.within (hplan : plan.Ordered) (hlayer : plan.network.layer? id = some layer)
    (hentry : id < entries) : layer.Within plan.network.size entries := by
  have hid := hplan.formed.id_eq hlayer
  have hsize := Network.lt_size hlayer
  refine ⟨by rwa [hid], by rwa [hid], fun p hp => ?_⟩
  have hlt := hplan.formed.inputs_lt hlayer p hp
  exact ⟨hlt.trans hsize, hlt.trans hentry⟩

theorem Ordered.inputScale?_eq (hplan : plan.Ordered)
    (h : sweep.Indexed plan.network.size entries)
    (hlayer : layer.Within plan.network.size entries) :
    plan.inputScale? (.range plan.network.size) layer sweep =
      some (plan.inputScale layer sweep) := by
  have hscales : layer.inputs.mapM
        (fun id => (sweep.outputScale? id).map fun scale => (id, scale)) =
      some (layer.inputs.map fun id => (id, sweep.outputScale id)) := by
    refine mapM_eq_some fun p hp => ?_
    rw [Sweep.outputScale?_eq (by rw [h.table_size]; exact (hlayer.inputs p hp).2)]
    rfl
  have hscale : (layer.inputs.map fun id => (id, sweep.outputScale id)).map (·.2) =
      layer.inputs.map sweep.outputScale := by
    rw [List.map_map]
    rfl
  have hfiner (least : Single) :
      ((layer.inputs.map fun id => (id, sweep.outputScale id)).filter
          fun (_, scale) => decide (scaleTolerance * scale < scale - least)).map (·.1) =
        layer.inputs.filter fun id =>
          decide (scaleTolerance * sweep.outputScale id < sweep.outputScale id - least) := by
    rw [List.filter_map, List.map_map]
    exact List.map_id _
  unfold inputScale? inputScale
  rw [hscales]
  simp only [Option.bind_eq_bind, Option.bind_some, hscale, hfiner]
  cases Binary.smallest? (layer.inputs.map sweep.outputScale) with
  | none => rfl
  | some least =>
      have hpushed (starts : List Nat) (hstarts : starts ⊆ layer.inputs) :
          plan.pushCaps? (.range plan.network.size) starts least layer.id sweep =
            some (plan.pushCaps starts least layer.id sweep) :=
        (hplan.pushCaps?_eq least layer.id h fun p hp => hlayer.inputs p (hstarts hp)).1
      cases layer.kind.needsUniformInputs with
      | false => rfl
      | true =>
          simp only [if_true]
          rw [hpushed _ fun p hp => (List.mem_filter.1 hp).1]
          rfl

theorem Ordered.weightedScales?_eq (hplan : plan.Ordered)
    (h : sweep.Indexed plan.network.size entries)
    (hlayer : layer.Within plan.network.size entries) (input : Single) :
    plan.weightedScales? (.range plan.network.size) layer input sweep =
      some (plan.weightedScales layer input sweep) := by
  have hentry : sweep.table.entry? layer.id = some (sweep.table.get layer.id) :=
    EdgeTable.entry?_eq (by rw [h.table_size]; exact hlayer.lt_entries)
  have hcap : sweep.caps[layer.id]? = some (sweep.cap? layer.id) :=
    getElem?_eq_getD (by rw [h.caps_size]; exact hlayer.lt_size) none
  have hlimit : Binary.smallest? [(sweep.table.get layer.id).output.rangeScale? plan.rule,
      sweep.cap? layer.id].reduceOption = plan.outputLimit? sweep layer.id := rfl
  unfold weightedScales? weightedScales
  simp only [Option.bind_eq_bind, hentry, hcap, Option.bind_some, hlimit]
  cases plan.outputLimit? sweep layer.id with
  | none => rfl
  | some limit =>
      have hpushed := (hplan.pushCaps?_eq limit layer.id h hlayer.inputs).1
      dsimp only
      split
      · split
        · rw [hpushed]
          rfl
        · rfl
      · rfl

theorem plainOutput?_eq (h : layer.id < sweep.table.size) (input : Single) :
    plan.plainOutput? layer input sweep = some (plan.plainOutput layer input sweep) := by
  unfold plainOutput? plainOutput
  rw [EdgeTable.entry?_eq h]
  rfl

/-- How the scales of a layer that reads others are derived. -/
theorem derive?_of_other (positions : Array Nat) (hinput : layer.kind ≠ .input)
    (hmemory : layer.kind ≠ .memory) :
    plan.derive? positions layer sweep = (do
      match ← plan.inputScale? positions layer sweep with
      | (sweep, none) => some (sweep, none)
      | (sweep, some input) => plan.scalesFrom? positions layer input sweep) := by
  unfold derive?
  cases hkind : layer.kind <;> first | rfl | contradiction

theorem Ordered.scalesFrom?_eq (hplan : plan.Ordered)
    (h : sweep.Indexed plan.network.size entries)
    (hlayer : layer.Within plan.network.size entries) (input : Single) :
    plan.scalesFrom? (.range plan.network.size) layer input sweep =
      some
        (if layer.kind.hasWeights then
          match plan.weightedScales layer input sweep with
          | (sweep, none) => (sweep, none)
          | (sweep, some (weights, output)) =>
            (sweep, some
              { input, output := sweep.capped layer.id output, weights? := some (weights, output) })
        else
          (sweep, some
            { input, output := sweep.capped layer.id (plan.plainOutput layer input sweep) })) := by
  have hcapped {after : Sweep} (hafter : after.Indexed plan.network.size entries)
      (output : Single) : after.capped? layer.id output = some (after.capped layer.id output) :=
    Sweep.capped?_eq (by rw [hafter.caps_size]; exact hlayer.lt_size) output
  unfold scalesFrom?
  cases hkind : layer.kind.hasWeights with
  | false =>
      have hplain : plan.plainOutput? layer input sweep =
          some (plan.plainOutput layer input sweep) :=
        plainOutput?_eq (by rw [h.table_size]; exact hlayer.lt_entries) input
      simp only [Bool.false_eq_true, if_false, Option.bind_eq_bind, hplain, Option.bind_some,
        hcapped h]
  | true =>
      have hafter : (plan.weightedScales layer input sweep).1.Indexed plan.network.size entries :=
        h.framed (weightedScales_pushed hkind input).framed
      simp only [if_true, Option.bind_eq_bind, hplan.weightedScales?_eq h hlayer, Option.bind_some]
      generalize plan.weightedScales layer input sweep = result at hafter
      obtain ⟨after, scales⟩ := result
      cases scales with
      | none => rfl
      | some scales =>
          simp only [hcapped hafter, Option.bind_some]

/-- Deriving a layer that has an entry is in range, whether or not the layers after it have one. -/
theorem Ordered.derive?_eq (hplan : plan.Ordered) (h : sweep.Indexed plan.network.size entries)
    (hlayer : layer.Within plan.network.size entries) :
    plan.derive? (.range plan.network.size) layer sweep = some (plan.derive layer sweep) := by
  have hentry : sweep.table.entry? layer.id = some (sweep.table.get layer.id) :=
    EdgeTable.entry?_eq (by rw [h.table_size]; exact hlayer.lt_entries)
  by_cases hinput : layer.kind = .input
  · simp only [derive?, derive, hinput, hentry, Option.bind_eq_bind, Option.bind_some]
  by_cases hmemory : layer.kind = .memory
  · have hcapped (scale : Single) :
        sweep.capped? layer.id scale = some (sweep.capped layer.id scale) :=
      Sweep.capped?_eq (by rw [h.caps_size]; exact hlayer.lt_size) scale
    simp only [derive?, derive, hmemory, hentry, Option.bind_eq_bind, Option.bind_some, hcapped]
    rfl
  rw [derive?_of_other _ hinput hmemory, derive_of_other hinput hmemory]
  have hafter : (plan.inputScale layer sweep).1.Indexed plan.network.size entries :=
    h.framed inputScale_pushed.framed
  simp only [Option.bind_eq_bind, hplan.inputScale?_eq h hlayer, Option.bind_some]
  generalize plan.inputScale layer sweep = result at hafter
  obtain ⟨after, scale⟩ := result
  cases scale with
  | none => rfl
  | some input => exact hplan.scalesFrom?_eq hafter hlayer input

/-! ## The calls of a sweep -/

/-- Derives and writes the scales of a layer, or schedules a restart. -/
def transform? (plan : SweepPlan) (positions : Array Nat) (id : Nat) (sweep : Sweep) :
    Option (Sweep × Except Error Unit) := do
  match plan.network.layer? id with
  | none => some (sweep, .error (.unknownLayer id))
  | some layer =>
    if sweep.table.size ≤ id then some (sweep, .error (.unknownLayer id))
    else
      match ← plan.derive? positions layer sweep with
      | (sweep, some scales) =>
        let settled ← sweep.settle? id scales
        some (settled, .ok ())
      | (sweep, none) => some (plan.scheduleRestart sweep)

/-- Begins a pass: the layers it will go through, with no restart pending. -/
def startPass? (plan : SweepPlan) (sweep : Sweep) : Option (Sweep × List Nat) := do
  let flags ← plan.order.mapM fun id => sweep.processed[id]?.map fun processed => (id, processed)
  some ({ sweep with restartPending := false }, (flags.filter (!·.2)).map (·.1))

/-- Goes through layers until one fails or asks for a restart. -/
def pass? (plan : SweepPlan) (positions : Array Nat) :
    List Nat → Sweep → Option (Sweep × Except Error Unit)
  | [], sweep => some (sweep, .ok ())
  | id :: rest, sweep => do
    match ← plan.transform? positions id sweep with
    | (sweep, .error error) => some (sweep, .error error)
    | (sweep, .ok ()) =>
      if sweep.restartPending then some (sweep, .ok ()) else pass? plan positions rest sweep

/-- Runs passes until every layer is processed. There is no result if this takes more than the given
number of passes. -/
def passes? (plan : SweepPlan) (positions : Array Nat) :
    Nat → Sweep → Option (Sweep × Except Error Unit)
  | 0, sweep => if sweep.allProcessed then some (sweep, .ok ()) else none
  | count + 1, sweep =>
    if sweep.allProcessed then some (sweep, .ok ())
    else do
      let (sweep, ids) ← plan.startPass? sweep
      match ← plan.pass? positions ids sweep with
      | (sweep, .error error) => some (sweep, .error error)
      | (sweep, .ok ()) => passes? plan positions count sweep

/-- Runs the sweep. -/
def run? (plan : SweepPlan) (positions : Array Nat) (sweep : Sweep) :
    Option (Sweep × Except Error Unit) :=
  if sweep.table.size < plan.network.size then
    some (sweep, .error (.unknownLayer sweep.table.size))
  else plan.passes? positions (plan.maxRestarts - sweep.restarts + 1) sweep

theorem scheduleRestart_indexed {size : Nat} (h : sweep.Indexed size entries) :
    (plan.scheduleRestart sweep).1.Indexed size entries := by
  unfold scheduleRestart
  dsimp only
  split
  · exact ⟨h.processed_size, h.caps_size, h.table_size⟩
  · exact ⟨h.processed_size, h.caps_size, h.table_size⟩

/-- A call for a layer is in range, whatever the calls before it have left and however long the
table is. -/
theorem Ordered.transform?_eq (hplan : plan.Ordered) (h : sweep.Indexed plan.network.size entries)
    (id : Nat) :
    plan.transform? (.range plan.network.size) id sweep = some (plan.transform id sweep) ∧
      (plan.transform id sweep).1.Indexed plan.network.size entries := by
  unfold transform? transform
  cases hlayer : plan.network.layer? id with
  | none => exact ⟨rfl, h⟩
  | some layer =>
      by_cases hshort : sweep.table.size ≤ id
      · simp only [hshort, if_true]
        exact ⟨trivial, h⟩
      have hentry : id < entries := by
        rw [← h.table_size]
        exact Nat.lt_of_not_le hshort
      have hderived := hplan.derive?_eq h (hplan.within hlayer hentry)
      have hafter := h.framed (derive_pushed plan layer sweep).framed
      simp only [hshort, if_false, Option.bind_eq_bind, hderived, Option.bind_some]
      generalize plan.derive layer sweep = result at hafter
      obtain ⟨after, scales⟩ := result
      cases scales with
      | none => exact ⟨rfl, scheduleRestart_indexed hafter⟩
      | some scales =>
          obtain ⟨hsettled, hindexed⟩ :=
            hafter.settle?_eq (Network.lt_size hlayer) hentry scales
          simp only [hsettled, Option.bind_some]
          exact ⟨trivial, hindexed⟩

/-- A pass goes through the unprocessed layers. -/
theorem startPass_eq :
    plan.startPass sweep = ((plan.startPass sweep).1, plan.unprocessed sweep) :=
  rfl

theorem Ordered.lt_of_mem_unprocessed (hplan : plan.Ordered) (hid : id ∈ plan.unprocessed sweep) :
    id < plan.network.size := by
  have hmem := (List.mem_filter.1 hid).1
  rwa [hplan.order_eq, List.mem_range] at hmem

/-- Listing the layers to derive reads the flag of each layer in the order. -/
theorem Ordered.startPass?_eq (hplan : plan.Ordered)
    (h : sweep.Indexed plan.network.size entries) :
    plan.startPass? sweep = some (plan.startPass sweep) := by
  have hflags : plan.order.mapM
        (fun id => sweep.processed[id]?.map fun processed => (id, processed)) =
      some (plan.order.map fun id => (id, sweep.isProcessed id)) := by
    refine mapM_eq_some fun id hid => ?_
    rw [hplan.order_eq, List.mem_range] at hid
    rw [getElem?_eq_getD (by rwa [h.processed_size]) false]
    rfl
  have hunprocessed :
      ((plan.order.map fun id => (id, sweep.isProcessed id)).filter (!·.2)).map (·.1) =
        plan.unprocessed sweep := by
    rw [List.filter_map, List.map_map]
    exact List.map_id _
  unfold startPass? startPass
  simp only [Option.bind_eq_bind, hflags, Option.bind_some, hunprocessed]

theorem Ordered.pass?_eq (hplan : plan.Ordered) (ids : List Nat)
    (h : sweep.Indexed plan.network.size entries) :
    plan.pass? (.range plan.network.size) ids sweep = some (plan.pass ids sweep) ∧
      (plan.pass ids sweep).1.Indexed plan.network.size entries := by
  induction ids generalizing sweep with
  | nil => exact ⟨rfl, h⟩
  | cons id rest ih =>
      obtain ⟨htransformed, hindexed⟩ := hplan.transform?_eq h id
      unfold pass? pass
      simp only [Option.bind_eq_bind, htransformed, Option.bind_some]
      generalize plan.transform id sweep = result at hindexed
      obtain ⟨after, answer⟩ := result
      cases answer with
      | error error => exact ⟨rfl, hindexed⟩
      | ok _ =>
          cases hpending : after.restartPending with
          | true =>
              simp only [hpending, if_true]
              exact ⟨trivial, hindexed⟩
          | false =>
              simp only [hpending, Bool.false_eq_true, if_false]
              exact ih hindexed

/-! ## The end of a run -/

/-- What calls for the given layers have done when none of them failed: the last one was granted a
restart, or all of the layers are processed, and those that were processed before still are. -/
inductive Advances (plan : SweepPlan) (ids : List Nat) (before after : Sweep) : Prop where
  | restarts (pending : after.restartPending = true)
      (counted : after.restarts = before.restarts + 1)
      (granted : after.restarts ≤ plan.maxRestarts)
  | processes (pending : after.restartPending = false)
      (processed : ∀ id, id ∈ ids ∨ before.isProcessed id = true → after.isProcessed id = true)
      (counted : after.restarts = before.restarts)

variable {after : Sweep}

/-- Calls for further layers, after one that was processed without a restart. -/
theorem Advances.cons {ids : List Nat} {middle : Sweep} (h : plan.Advances ids middle after)
    (hprocessed : ∀ other, other ∈ [id] ∨ sweep.isProcessed other = true →
      middle.isProcessed other = true)
    (hsame : middle.restarts = sweep.restarts) : plan.Advances (id :: ids) sweep after := by
  cases h with
  | restarts hrestart hcounted hgranted =>
      exact .restarts hrestart (by rw [hcounted, hsame]) hgranted
  | processes hnone hlater hcounted =>
      refine .processes hnone (fun other hother => hlater other ?_) (hcounted.trans hsame)
      rw [List.mem_cons, or_assoc] at hother
      rcases hother with rfl | hrest | hbefore
      · exact Or.inr (hprocessed _ (Or.inl List.mem_cons_self))
      · exact Or.inl hrest
      · exact Or.inr (hprocessed _ (Or.inr hbefore))

theorem transform_advances {size : Nat} (h : sweep.Indexed size entries) (hid : id < size)
    (hpending : sweep.restartPending = false)
    (htransform : plan.transform id sweep = (after, .ok ())) : plan.Advances [id] sweep after := by
  unfold transform at htransform
  cases hlayer : plan.network.layer? id with
  | none => simp [hlayer] at htransform
  | some layer =>
      simp only [hlayer] at htransform
      split at htransform
      · simp at htransform
      have hframed := (derive_pushed plan layer sweep).framed
      cases hderive : plan.derive layer sweep with
      | mk middle scales =>
          rw [hderive] at hframed
          cases scales with
          | none =>
              simp only [hderive, scheduleRestart] at htransform
              split at htransform
              · simp at htransform
              · rename_i hgranted
                obtain ⟨rfl, -⟩ := Prod.mk.inj htransform
                exact .restarts rfl (congrArg (· + 1) hframed.restarts) (Nat.le_of_not_lt hgranted)
          | some scales =>
              simp only [hderive, Prod.mk.injEq, and_true] at htransform
              subst htransform
              -- Without a restart no cap was tightened, so the flags are those from before.
              have hsome : (plan.derive layer sweep).2 = some scales := by rw [hderive]
              have hnoted := (derive_eq_some hsome).1
              rw [hderive] at hnoted
              obtain ⟨noted, _, hmiddle⟩ := hnoted
              obtain rfl : middle = { sweep with conflicts := noted } := hmiddle
              refine .processes hpending (fun other hother => ?_) rfl
              rw [Sweep.isProcessed_settle (by rwa [← h.processed_size] at hid)]
              rcases hother with hother | hother
              · exact Or.inl (List.mem_singleton.1 hother)
              · exact Or.inr hother

theorem Ordered.pass_advances (hplan : plan.Ordered) (ids : List Nat)
    (h : sweep.Indexed plan.network.size entries) (hids : ∀ id ∈ ids, id < plan.network.size)
    (hpending : sweep.restartPending = false) (hpass : plan.pass ids sweep = (after, .ok ())) :
    plan.Advances ids sweep after := by
  induction ids generalizing sweep with
  | nil =>
      obtain ⟨rfl, -⟩ := Prod.mk.inj hpass
      exact .processes hpending (fun id hid => hid.resolve_left List.not_mem_nil) rfl
  | cons id rest ih =>
      have hindexed := (hplan.transform?_eq h id).2
      unfold pass at hpass
      cases htransform : plan.transform id sweep with
      | mk middle answer =>
          rw [htransform] at hindexed hpass
          cases answer with
          | error error => simp at hpass
          | ok _ =>
              have hfirst := transform_advances h (hids id List.mem_cons_self) hpending htransform
              cases hfirst with
              | restarts hrestart hcounted hgranted =>
                  simp only [hrestart, if_true] at hpass
                  obtain ⟨rfl, -⟩ := Prod.mk.inj hpass
                  exact .restarts hrestart hcounted hgranted
              | processes hnone hprocessed hsame =>
                  simp only [hnone, Bool.false_eq_true, if_false] at hpass
                  have hrest := ih hindexed
                    (fun later hlater => hids later (List.mem_cons_of_mem _ hlater)) hnone hpass
                  exact hrest.cons hprocessed hsame

/-- A pass that neither fails nor ends with a restart leaves every layer processed. -/
theorem Ordered.allProcessed_of_pass (hplan : plan.Ordered)
    (hadvances : plan.Advances (plan.unprocessed sweep) (plan.startPass sweep).1 after)
    (hafter : after.Indexed plan.network.size entries) :
    (after.restarts = sweep.restarts + 1 ∧ after.restarts ≤ plan.maxRestarts) ∨
      after.allProcessed = true := by
  cases hadvances with
  | restarts _ hcounted hgranted => exact Or.inl ⟨hcounted, hgranted⟩
  | processes _ hprocessed _ =>
      refine Or.inr (after.allProcessed_iff.2 fun id hid => hprocessed id ?_)
      rw [hafter.processed_size] at hid
      cases hflag : sweep.isProcessed id with
      | true => exact Or.inr hflag
      | false =>
          refine Or.inl (List.mem_filter.2 ⟨?_, by rw [hflag]; rfl⟩)
          rw [hplan.order_eq]
          exact List.mem_range.2 hid

/-- Once every layer is processed, no further pass is made. -/
theorem passes?_of_allProcessed {positions : Array Nat} (count : Nat)
    (h : sweep.allProcessed = true) :
    plan.passes? positions count sweep = some (sweep, .ok ()) := by
  cases count with
  | zero => exact if_pos h
  | succ count =>
      unfold passes?
      rw [if_pos h]

/-- Passes end with every layer processed or with an error, if there is one more of them than there
are restarts left. -/
theorem Ordered.passes?_eq (hplan : plan.Ordered) (count : Nat)
    (h : sweep.Indexed plan.network.size entries)
    (hcount : plan.maxRestarts - sweep.restarts < count) :
    plan.passes? (.range plan.network.size) count sweep = some (plan.passes count sweep) ∧
      (plan.passes count sweep).1.Indexed plan.network.size entries := by
  induction count generalizing sweep with
  | zero => omega
  | succ count ih =>
      unfold passes? passes
      by_cases hall : sweep.allProcessed = true
      · rw [if_pos hall, if_pos hall]
        exact ⟨rfl, h⟩
      have hbegun : (plan.startPass sweep).1.Indexed plan.network.size entries :=
        ⟨h.processed_size, h.caps_size, h.table_size⟩
      obtain ⟨hpassed, hindexed⟩ := hplan.pass?_eq (plan.unprocessed sweep) hbegun
      rw [if_neg hall, if_neg hall, hplan.startPass?_eq h, startPass_eq]
      simp only [Option.bind_eq_bind, Option.bind_some, hpassed]
      cases hpass : plan.pass (plan.unprocessed sweep) (plan.startPass sweep).1 with
      | mk after answer =>
          rw [hpass] at hindexed
          cases answer with
          | error error => exact ⟨rfl, hindexed⟩
          | ok _ =>
              have hadvances :=
                hplan.pass_advances _ hbegun (fun _ => hplan.lt_of_mem_unprocessed) rfl hpass
              rcases hplan.allProcessed_of_pass hadvances hindexed with ⟨hcounted, hgranted⟩ | hdone
              · exact ih hindexed (by omega)
              · refine ⟨?_, ?_⟩
                · show plan.passes? (.range plan.network.size) count after =
                    some (plan.passes count after)
                  rw [passes?_of_allProcessed count hdone, passes_of_allProcessed count hdone]
                · show (plan.passes count after).1.Indexed plan.network.size entries
                  rw [passes_of_allProcessed count hdone]
                  exact hindexed

/-- A run is in range and comes to an end, whatever the calls before it have left. -/
theorem Ordered.run?_eq (hplan : plan.Ordered) (h : sweep.Indexed plan.network.size entries) :
    plan.run? (.range plan.network.size) sweep = some (plan.run sweep) ∧
      (plan.run sweep).1.Indexed plan.network.size entries := by
  unfold run? run
  by_cases hshort : sweep.table.size < plan.network.size
  · rw [if_pos hshort, if_pos hshort]
    exact ⟨rfl, h⟩
  · rw [if_neg hshort, if_neg hshort]
    exact hplan.passes?_eq _ h (Nat.lt_succ_self _)

end SweepPlan

end LayerQuant
