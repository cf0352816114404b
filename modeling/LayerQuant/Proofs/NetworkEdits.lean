import Mathlib
import LayerQuant.Proofs.Construction
import LayerQuant.Proofs.InPlace

/-!
# Networks changed in place

`Edit` is the view of a caller who holds a network and changes it step by step: a change that fails
half-way would leave what it has done so far. The operations of `Network` are such changes in which
every check comes before the first write, so a refused one leaves no trace (`Call.perform_eq`). What
they keep of a network beyond its edges is `Lawful`. Read `Lawful` and `calls_keep_lawful` first.
-/

namespace LayerQuant

/-- A result that was changed was there before. -/
theorem map_eq_ok {ε α β : Type} {result : Except ε α} {f : α → β} {b : β} :
    result.map f = .ok b ↔ ∃ a, result = .ok a ∧ f a = b := by
  cases result <;> simp [Except.map]

/-- What the operations on networks keep about a single layer. -/
structure Layer.Lawful (layer : Layer) : Prop where
  recurrent_nodup : layer.recurrentInputs.Nodup
  unfed : layer.kind = .input → layer.inputs = []
  fed : layer.kind ≠ .input → layer.kind ≠ .memory → layer.inputs ≠ []
  weighted : layer.weights.isSome = true → layer.kind.hasWeights = true
  biased : layer.biases.isSome = true → layer.weights.isSome = true

namespace Network

/-- The ids of the layers of the input kind, in ascending order. -/
def inputLayers (network : Network) : List Nat :=
  (List.range network.size).filter fun id => (network.layer? id).any (·.isInput)

/-- What the operations keep about a network. -/
structure Lawful (network : Network) : Prop extends network.WellFormed where
  names_nodup : (network.layers.toList.map (·.name)).Nodup
  inputs_eq : network.inputs = network.inputLayers
  layers : ∀ {id layer}, network.layer? id = some layer → layer.Lawful

variable {network : Network} {id : Nat}

/-! ## A layer is appended -/

/-- Exactly a name that no layer has is found nowhere. -/
theorem find?_eq_none {name : String} :
    network.find? name = none ↔ name ∉ network.layers.toList.map (·.name) := by
  simp [find?]

theorem inputLayers_push (layer : Layer) (inputs : List Nat) :
    inputLayers ⟨network.layers.push layer, inputs⟩ =
      network.inputLayers ++ if layer.isInput then [network.size] else [] := by
  have hsize : size ⟨network.layers.push layer, inputs⟩ = network.size + 1 := by simp [size]
  have hold : (List.range network.size).filter
      (fun id => (layer? ⟨network.layers.push layer, inputs⟩ id).any (·.isInput)) =
        network.inputLayers := by
    refine List.filter_congr fun id hid => ?_
    rw [layer?_push, if_neg (List.mem_range.1 hid).ne]
  unfold inputLayers at hold ⊢
  rw [hsize, List.range_succ, List.filter_append, hold]
  cases hinput : layer.isInput <;> simp [layer?_push, hinput]

/-- Appending keeps the names distinct and the layers lawful if the new layer is, and only the new
layer may be a further input. -/
theorem Lawful.append {grown : Network} {name : String} {kind : Kind} {inputs : List Nat}
    (h : network.Lawful) (hgrown : network.append name kind inputs = .ok (grown, id))
    (hnew : Layer.Lawful { id, name, kind, inputs }) :
    id = network.size ∧ grown.inputs = network.inputs ∧
      (grown.layers.toList.map (·.name)).Nodup ∧
      grown.inputLayers = network.inputLayers ++ (if kind = .input then [network.size] else []) ∧
      ∀ {other layer}, grown.layer? other = some layer → layer.Lawful := by
  unfold Network.append at hgrown
  rw [ite_error_eq_ok] at hgrown
  obtain ⟨hfresh, hgrown⟩ := hgrown
  simp only [Except.ok.injEq, Prod.mk.injEq] at hgrown
  obtain ⟨rfl, rfl⟩ := hgrown
  have hname := find?_eq_none.1 (Option.not_isSome_iff_eq_none.1 hfresh)
  refine ⟨rfl, rfl, ?_, ?_, fun {other layer} hlayer => ?_⟩
  · rw [Array.toList_push, List.map_append, List.map_singleton]
    rw [← List.concat_eq_append]
    exact h.names_nodup.concat hname
  · rw [inputLayers_push]
    simp [Layer.isInput]
  · rw [layer?_push] at hlayer
    split at hlayer
    · obtain rfl := Option.some.inj hlayer
      exact hnew
    · exact h.layers hlayer

theorem Lawful.addInput {grown : Network} {name : String} (h : network.Lawful)
    (hgrown : network.addInput name = .ok (grown, id)) : grown.Lawful := by
  have hformed := h.toWellFormed.addInput hgrown
  unfold Network.addInput at hgrown
  obtain ⟨⟨appended, new⟩, happend, hgrown⟩ := bind_eq_ok.1 hgrown
  simp only [pure, Except.pure, Except.ok.injEq, Prod.mk.injEq] at hgrown
  obtain ⟨rfl, rfl⟩ := hgrown
  obtain ⟨hid, hinputs, hnames, hdeclared, hlayers⟩ := h.append happend
    ⟨List.nodup_nil, fun _ => rfl, fun hkind => absurd rfl hkind, nofun, nofun⟩
  refine ⟨hformed, hnames, ?_, hlayers⟩
  show appended.inputs ++ [new] = appended.inputLayers
  rw [hinputs, h.inputs_eq, hdeclared, hid, if_pos rfl]

theorem Lawful.addLayer {grown : Network} {name : String} {kind : Kind} {inputs : List Nat}
    (h : network.Lawful) (hgrown : network.addLayer name kind inputs = .ok (grown, id)) :
    grown.Lawful := by
  have hformed := h.toWellFormed.addLayer hgrown
  unfold Network.addLayer at hgrown
  by_cases hinput : kind = .input
  · rw [if_pos hinput] at hgrown
    exact h.addInput hgrown
  · rw [if_neg hinput, ite_error_eq_ok] at hgrown
    obtain ⟨hfed, hgrown⟩ := hgrown
    split at hgrown
    · cases hgrown
    · obtain ⟨_, hinputs, hnames, hdeclared, hlayers⟩ := h.append hgrown
        ⟨List.nodup_nil, fun hkind => absurd hkind hinput,
          fun _ hmemory hempty => hfed ⟨List.isEmpty_iff.2 hempty, hmemory⟩, nofun, nofun⟩
      refine ⟨hformed, hnames, ?_, hlayers⟩
      rw [hinputs, h.inputs_eq, hdeclared, if_neg hinput, List.append_nil]

/-! ## A layer is changed -/

/-- A layer after one has been changed is that one, changed, or an old one. -/
theorem layer?_modify (target : Nat) (change : Layer → Layer) (inputs : List Nat) :
    layer? ⟨network.layers.modify target change, inputs⟩ id =
      (network.layer? id).map fun layer => if target = id then change layer else layer := by
  show (network.layers.modify target change)[id]? = _
  rw [Array.getElem?_modify]
  unfold layer?
  split <;> simp

/-- Changing a layer in its parameters or recurrent inputs keeps a network lawful if it keeps the
layer so. -/
theorem Lawful.modify (h : network.Lawful) (target : Nat) (change : Layer → Layer)
    (hformed : WellFormed { network with layers := network.layers.modify target change })
    (hname : ∀ layer, (change layer).name = layer.name)
    (hkind : ∀ layer, (change layer).kind = layer.kind)
    (hlawful : ∀ layer, network.layer? target = some layer → layer.Lawful →
      (change layer).Lawful) :
    Lawful { network with layers := network.layers.modify target change } := by
  have hnames : (network.layers.modify target change).toList.map (·.name) =
      network.layers.toList.map (·.name) := by
    rw [Array.toList_modify]
    refine List.ext_getElem? fun i => ?_
    rw [List.getElem?_map, List.getElem?_map, List.getElem?_modify, Option.map_eq_map,
      Option.map_map]
    refine congrArg (Option.map · _) (funext fun layer => ?_)
    simp only [Function.comp_apply]
    split
    · exact hname layer
    · rfl
  have hinputs : inputLayers { network with layers := network.layers.modify target change } =
      network.inputLayers := by
    have hsize : size { network with layers := network.layers.modify target change } =
        network.size := by simp [size]
    unfold inputLayers
    rw [hsize]
    refine List.filter_congr fun id _ => ?_
    rw [layer?_modify, Option.any_map]
    refine congrArg (Option.any · _) (funext fun layer => ?_)
    simp only [Layer.isInput]
    split
    · rw [hkind]
    · rfl
  refine ⟨hformed, ?_, ?_, fun {id layer} hlayer => ?_⟩
  · rw [hnames]
    exact h.names_nodup
  · rw [hinputs]
    exact h.inputs_eq
  · rw [layer?_modify] at hlayer
    obtain ⟨old, hold, rfl⟩ := Option.map_eq_some_iff.1 hlayer
    split
    · rename_i heq
      exact hlawful old (heq ▸ hold) (h.layers hold)
    · exact h.layers hold

theorem Lawful.setWeights {changed : Network} {weights : List Single}
    {biases : Option (List Single)} (h : network.Lawful)
    (hchanged : network.setWeights id weights biases = .ok changed) : changed.Lawful := by
  have hformed := h.toWellFormed.setWeights hchanged
  unfold Network.setWeights at hchanged
  split at hchanged
  · cases hchanged
  · rename_i found hfound
    split at hchanged
    · rename_i hkind
      cases hchanged
      refine h.modify id _ hformed (fun _ => rfl) (fun _ => rfl) fun layer hlayer hlawful => ?_
      obtain rfl := Option.some.inj (hfound.symm.trans hlayer)
      exact ⟨hlawful.recurrent_nodup, hlawful.unfed, hlawful.fed, fun _ => hkind, fun _ => rfl⟩
    · cases hchanged

theorem Lawful.addRecurrentEdge {changed : Network} {source target : Nat} (h : network.Lawful)
    (hchanged : network.addRecurrentEdge source target = .ok changed) : changed.Lawful := by
  have hformed := h.toWellFormed.addRecurrentEdge hchanged
  unfold Network.addRecurrentEdge at hchanged
  rw [ite_error_eq_ok] at hchanged
  obtain ⟨_, hchanged⟩ := hchanged
  split at hchanged
  · cases hchanged
  · rename_i found hfound
    split at hchanged
    · cases hchanged
      exact h
    · rename_i hnew
      cases hchanged
      refine h.modify target _ hformed (fun _ => rfl) (fun _ => rfl) fun layer hlayer hlawful => ?_
      obtain rfl := Option.some.inj (hfound.symm.trans hlayer)
      have hnodup : (found.recurrentInputs ++ [source]).Nodup := by
        rw [← List.concat_eq_append]
        exact hlawful.recurrent_nodup.concat hnew
      exact ⟨hnodup, hlawful.unfed, hlawful.fed, hlawful.weighted,
        hlawful.biased⟩

theorem lawful_empty : Lawful {} where
  toWellFormed := wellFormed_empty
  names_nodup := List.nodup_nil
  inputs_eq := rfl
  layers := nofun

/-- Every network that was built is lawful. -/
theorem Built.lawful (h : network.Built) : network.Lawful := by
  induction h with
  | empty => exact lawful_empty
  | addInput _ hgrown ih => exact ih.addInput hgrown
  | addLayer _ hgrown ih => exact ih.addLayer hgrown
  | setWeights _ hchanged ih => exact ih.setWeights hchanged
  | addRecurrentEdge _ hchanged ih => exact ih.addRecurrentEdge hchanged

/-! ## Operations in place -/

/-- A change of a network that the caller holds. When it fails it leaves what it has written. -/
abbrev Edit (α : Type) := InPlace GraphError Network α

namespace Edit

/-- Writes to one layer. -/
def change (id : Nat) (write : Layer → Layer) : Edit Unit :=
  modify fun network => { network with layers := network.layers.modify id write }

/-- Appends a layer under a fresh name. -/
def append (name : String) (kind : Kind) (inputs : List Nat) : Edit Nat := do
  let network ← get
  if (network.find? name).isSome then throw (.duplicateName name)
  let id := network.size
  set { network with layers := network.layers.push { id, name, kind, inputs } }
  return id

/-- Adds an input: first the layer, then its place among the declared inputs. -/
def addInput (name : String) : Edit Nat := do
  let id ← append name .input []
  modify fun network => { network with inputs := network.inputs ++ [id] }
  return id

/-- Adds a layer that reads layers already in the network. -/
def addLayer (name : String) (kind : Kind) (inputs : List Nat) : Edit Nat := do
  if kind = .input then addInput name
  else
    if inputs.isEmpty ∧ kind ≠ .memory then throw (.missingInputs name kind)
    match inputs.find? ((← get).size ≤ ·) with
    | some id => throw (.unknownLayer id)
    | none => append name kind inputs

/-- Gives a layer its weights, then its biases. -/
def setWeights (id : Nat) (weights : List Single) (biases : Option (List Single)) :
    Edit Unit := do
  match (← get).layer? id with
  | none => throw (.unknownLayer id)
  | some layer =>
    if !layer.kind.hasWeights then throw (.unexpectedWeights layer.name)
    change id ({ · with weights := some weights })
    change id ({ · with biases })

/-- Lets the layer `target` read, one step later, what `source` produces. -/
def addRecurrentEdge (source target : Nat) : Edit Unit := do
  if (← get).size ≤ source then throw (.unknownLayer source)
  match (← get).layer? target with
  | none => throw (.unknownLayer target)
  | some layer =>
    if !layer.recurrentInputs.contains source then
      change target fun layer => { layer with recurrentInputs := layer.recurrentInputs ++ [source] }

end Edit

/-- What a change leaves that is made as a whole or not at all. -/
def whole {α : Type} (network : Network) :
    Except GraphError (Network × α) → Except GraphError α × Network
  | .ok (changed, result) => (.ok result, changed)
  | .error error => (.error error, network)

namespace Edit

open InPlace

variable {name : String} {kind : Kind} {inputs : List Nat}

theorem perform_append :
    (append name kind inputs).perform network =
      network.whole (network.append name kind inputs) := by
  unfold append Network.append
  cases hfresh : (network.find? name).isSome with
  | true => simp [whole, hfresh]
  | false =>
      simp only [perform_bind, perform_get, hfresh, Bool.false_eq_true, if_false, perform_set]
      rfl

theorem perform_addInput :
    (addInput name).perform network = network.whole (network.addInput name) := by
  unfold addInput Network.addInput
  rw [perform_bind, perform_append]
  cases network.append name .input [] with
  | ok grown =>
      obtain ⟨grown, id⟩ := grown
      simp only [whole, perform_bind, perform_modify, perform_pure]
      rfl
  | error error => rfl

theorem perform_addLayer :
    (addLayer name kind inputs).perform network =
      network.whole (network.addLayer name kind inputs) := by
  unfold addLayer Network.addLayer
  by_cases hinput : kind = .input
  · simp only [hinput, if_true]
    exact perform_addInput
  by_cases hunfed : inputs.isEmpty ∧ kind ≠ .memory
  · simp [hinput, hunfed, whole]
  · simp only [hinput, hunfed, if_false, perform_bind, perform_get]
    cases hfound : inputs.find? (network.size ≤ ·) with
    | some id => rfl
    | none => exact perform_append

theorem perform_change (write : Layer → Layer) :
    (change id write).perform network =
      (.ok ⟨⟩, { network with layers := network.layers.modify id write }) := rfl

theorem perform_setWeights {weights : List Single} {biases : Option (List Single)} :
    (setWeights id weights biases).perform network =
      network.whole ((network.setWeights id weights biases).map (·, ())) := by
  unfold setWeights Network.setWeights
  rw [perform_bind, perform_get]
  dsimp only
  cases hlayer : network.layer? id with
  | none => rfl
  | some layer =>
      cases hkind : layer.kind.hasWeights with
      | false => simp [whole, hkind, Except.map]
      | true =>
          simp only [hkind, Bool.not_true, Bool.false_eq_true, if_false, perform_bind,
            perform_change, modify_modify]
          rfl

theorem perform_addRecurrentEdge {source target : Nat} :
    (addRecurrentEdge source target).perform network =
      network.whole ((network.addRecurrentEdge source target).map (·, ())) := by
  unfold addRecurrentEdge Network.addRecurrentEdge
  rw [perform_bind, perform_get]
  dsimp only
  by_cases hsource : network.size ≤ source
  · simp [hsource, whole, Except.map]
  · simp only [hsource, if_false, perform_bind, perform_get]
    cases hlayer : network.layer? target with
    | none => rfl
    | some layer =>
        by_cases hknown : source ∈ layer.recurrentInputs
        · simp [hknown, whole, Except.map]
        · simp only [hknown, List.contains_eq_mem, decide_false, Bool.not_false, if_true,
            if_false, perform_change]
          rfl

end Edit

/-! ## Sequences of calls -/

/-- A call of one of the operations on a network. -/
inductive Call where
  | addInput (name : String)
  | addLayer (name : String) (kind : Kind) (inputs : List Nat)
  | setWeights (id : Nat) (weights : List Single) (biases : Option (List Single))
  | addRecurrentEdge (source target : Nat)

/-- The change that a call asks for, with the id that it returns if it adds a layer. -/
def Call.edit : Call → Edit (Option Nat)
  | addInput name => do return some (← Edit.addInput name)
  | addLayer name kind inputs => do return some (← Edit.addLayer name kind inputs)
  | setWeights id weights biases => do
    Edit.setWeights id weights biases
    return none
  | addRecurrentEdge source target => do
    Edit.addRecurrentEdge source target
    return none

/-- The operation of a call on a network that is not changed in place. -/
def Call.apply (network : Network) : Call → Except GraphError (Network × Option Nat)
  | addInput name => (network.addInput name).map fun (grown, id) => (grown, some id)
  | addLayer name kind inputs =>
    (network.addLayer name kind inputs).map fun (grown, id) => (grown, some id)
  | setWeights id weights biases => (network.setWeights id weights biases).map (·, none)
  | addRecurrentEdge source target => (network.addRecurrentEdge source target).map (·, none)

/-- A call in place leaves what its operation makes, or the network as it was. -/
theorem Call.perform_eq (call : Call) (network : Network) :
    call.edit.perform network = network.whole (call.apply network) := by
  cases call with
  | addInput name =>
      simp only [edit, apply, InPlace.perform_bind, Edit.perform_addInput]
      cases network.addInput name <;> rfl
  | addLayer name kind inputs =>
      simp only [edit, apply, InPlace.perform_bind, Edit.perform_addLayer]
      cases network.addLayer name kind inputs <;> rfl
  | setWeights id weights biases =>
      simp only [edit, apply, InPlace.perform_bind, Edit.perform_setWeights]
      cases network.setWeights id weights biases <;> rfl
  | addRecurrentEdge source target =>
      simp only [edit, apply, InPlace.perform_bind, Edit.perform_addRecurrentEdge]
      cases network.addRecurrentEdge source target <;> rfl

/-- What a call makes of a network that was built was built as well. -/
theorem Built.apply {changed : Network} {result : Option Nat} {call : Call} (h : network.Built)
    (happly : call.apply network = .ok (changed, result)) : changed.Built := by
  cases call with
  | addInput name =>
      obtain ⟨_, hmade, heq⟩ := map_eq_ok.1 happly
      cases heq
      exact h.addInput hmade
  | addLayer name kind inputs =>
      obtain ⟨_, hmade, heq⟩ := map_eq_ok.1 happly
      cases heq
      exact h.addLayer hmade
  | setWeights id weights biases =>
      obtain ⟨_, hmade, heq⟩ := map_eq_ok.1 happly
      cases heq
      exact h.setWeights hmade
  | addRecurrentEdge source target =>
      obtain ⟨_, hmade, heq⟩ := map_eq_ok.1 happly
      cases heq
      exact h.addRecurrentEdge hmade

/-- The network that calls leave one after the other, whatever each of them returns. -/
def afterCalls (network : Network) (calls : List Call) : Network :=
  calls.foldl (fun network call => (call.edit.perform network).2) network

/-- A network stays one that was built under any calls, failed ones included. -/
theorem Built.afterCalls (h : network.Built) (calls : List Call) :
    (network.afterCalls calls).Built := by
  induction calls generalizing network with
  | nil => exact h
  | cons call rest ih =>
      refine ih ?_
      show (call.edit.perform network).2.Built
      rw [call.perform_eq]
      cases happly : call.apply network with
      | ok made => exact h.apply happly
      | error error => exact h

/-- Whatever calls are made on the empty network, failed ones included, the network that they leave
is lawful: the layers stand at the positions that are their ids under distinct names, they read
earlier layers by forward edges and existing ones by recurrent edges that are not repeated, the
declared inputs are the layers of the input kind in ascending order, inputs read nothing and every
other layer but a memory read reads something, and only layers that take weights have weights, and
biases only beside them. A call on any network that returns an error leaves it as it was. -/
theorem calls_keep_lawful :
    (∀ calls, (afterCalls {} calls).Lawful) ∧
      ∀ (network : Network) (call : Call) (error : GraphError),
        (call.edit.perform network).1 = .error error → (call.edit.perform network).2 = network := by
  constructor
  · intro calls
    exact (Built.empty.afterCalls calls).lawful
  · intro network call error hfailed
    rw [call.perform_eq] at hfailed ⊢
    cases happly : call.apply network with
    | ok made =>
        rw [happly] at hfailed
        cases hfailed
    | error error => rfl

/-- Two layers, with three refused calls in between: a name that is taken, an input that is not
there, and a sum without inputs. -/
def summedCalls : List Call :=
  [.addInput "samples", .addInput "samples", .addLayer "sum" .eltwise [1],
    .addLayer "sum" .eltwise [], .addLayer "sum" .eltwise [0, 0], .addRecurrentEdge 1 1]

theorem summed_lawful :
    (afterCalls {} summedCalls).size = 2 ∧ (afterCalls {} summedCalls).Lawful ∧
      ((Call.setWeights 1 [] none).edit.perform (afterCalls {} summedCalls)).1 =
        .error (.unexpectedWeights "sum") ∧
      ((Call.setWeights 1 [] none).edit.perform (afterCalls {} summedCalls)).2 =
        afterCalls {} summedCalls := by
  obtain ⟨hlawful, hfailed⟩ := calls_keep_lawful
  have hrefused : ((Call.setWeights 1 [] none).edit.perform (afterCalls {} summedCalls)).1 =
      .error (.unexpectedWeights "sum") := by cbv
  exact ⟨by cbv, hlawful summedCalls, hrefused, hfailed _ _ _ hrefused⟩

end Network

end LayerQuant
