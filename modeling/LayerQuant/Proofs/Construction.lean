import Mathlib
import LayerQuant.Graph.Network

/-!
# Networks under construction

`Built` holds of the networks that the operations of `Network` can make. Each operation keeps
`WellFormed`: a layer stands at the position that is its id, its forward inputs come before it, its
recurrent inputs exist, and the declared inputs are layers of the input kind. Later modules assume
`Built` and use `WellFormed`.
-/

namespace LayerQuant

/-- A computation that succeeds has succeeded in its first step and in the rest. -/
theorem bind_eq_ok {ε α β : Type} {first : Except ε α} {rest : α → Except ε β} {b : β} :
    (first >>= rest) = .ok b ↔ ∃ a, first = .ok a ∧ rest a = .ok b := by
  cases first with
  | error error => simp [bind, Except.bind]
  | ok a => simp [bind, Except.bind]

/-- A check that raises an error in one case has passed only in the other one. -/
theorem ite_error_eq_ok {ε α : Type} {p : Prop} [Decidable p] {error : ε} {rest : Except ε α}
    {x : α} : (if p then .error error else rest) = Except.ok x ↔ ¬p ∧ rest = .ok x := by
  split <;> simp_all

namespace Network

/-- The network was grown from the empty one by successful operations. -/
inductive Built : Network → Prop where
  | empty : Built {}
  | addInput {network grown : Network} {name : String} {id : Nat} :
      Built network → network.addInput name = .ok (grown, id) → Built grown
  | addLayer {network grown : Network} {name : String} {kind : Kind} {inputs : List Nat}
      {id : Nat} :
      Built network → network.addLayer name kind inputs = .ok (grown, id) → Built grown
  | setWeights {network changed : Network} {id : Nat} {weights : List Single}
      {biases : Option (List Single)} :
      Built network → network.setWeights id weights biases = .ok changed → Built changed
  | addRecurrentEdge {network changed : Network} {source target : Nat} :
      Built network → network.addRecurrentEdge source target = .ok changed → Built changed

/-- What every operation keeps about the layers and edges of a network. -/
structure WellFormed (network : Network) : Prop where
  id_eq : ∀ {id layer}, network.layer? id = some layer → layer.id = id
  inputs_lt : ∀ {id layer}, network.layer? id = some layer → ∀ p ∈ layer.inputs, p < id
  recurrent_lt : ∀ {id layer}, network.layer? id = some layer →
    ∀ p ∈ layer.recurrentInputs, p < network.size
  declared : ∀ {id}, id ∈ network.inputs →
    ∃ layer, network.layer? id = some layer ∧ layer.kind = .input

variable {network : Network} {id : Nat} {layer : Layer}

/-- A network has a layer at every position below its size, and at no other. -/
theorem layer?_isSome_iff : (network.layer? id).isSome ↔ id < network.size := by
  simp [layer?, size]

theorem exists_layer (h : id < network.size) : ∃ layer, network.layer? id = some layer :=
  Option.isSome_iff_exists.1 (layer?_isSome_iff.2 h)

/-- What each layer has if its inputs have it, the first layers have. -/
@[elab_as_elim]
theorem WellFormed.induct {motive : Nat → Prop} {k : Nat} (h : network.WellFormed)
    (hk : k ≤ network.size) (id : Nat) (hid : id < k)
    (hstep : ∀ {id layer}, network.layer? id = some layer → id < k →
      (∀ p ∈ layer.inputs, motive p) → motive id) : motive id := by
  induction id using Nat.strongRecOn with
  | ind id ih =>
      obtain ⟨layer, hlayer⟩ := exists_layer (hid.trans_le hk)
      refine hstep hlayer hid fun p hp => ?_
      have hlt := h.inputs_lt hlayer p hp
      exact ih p hlt (hlt.trans hid)

theorem lt_size (h : network.layer? id = some layer) : id < network.size :=
  layer?_isSome_iff.1 (by simp [h])

theorem layer?_mem (h : network.layer? id = some layer) : layer ∈ network.layers.toList := by
  have := Array.mem_of_getElem? h
  simpa using this

theorem exists_layer?_of_mem (h : layer ∈ network.layers.toList) :
    ∃ id, network.layer? id = some layer := by
  obtain ⟨id, hlt, hget⟩ := List.mem_iff_getElem.1 h
  exact ⟨id, by simp only [layer?, ← Array.getElem?_toList, List.getElem?_eq_getElem hlt, hget]⟩

/-- In a well-formed network the layers are found under their ids. -/
theorem WellFormed.layer?_id (h : network.WellFormed) (hmem : layer ∈ network.layers.toList) :
    network.layer? layer.id = some layer := by
  obtain ⟨id, hlayer⟩ := exists_layer?_of_mem hmem
  rw [h.id_eq hlayer]
  exact hlayer

/-- All producers of a layer exist. -/
theorem WellFormed.predecessor_lt (h : network.WellFormed) (hlayer : network.layer? id = some layer)
    {p : Nat} (hp : p ∈ layer.predecessors) : p < network.size := by
  rcases List.mem_append.1 hp with hp | hp
  · exact (h.inputs_lt hlayer p hp).trans (lt_size hlayer)
  · exact h.recurrent_lt hlayer p hp

theorem wellFormed_empty : WellFormed {} where
  id_eq h := by simp [layer?] at h
  inputs_lt h := by simp [layer?] at h
  recurrent_lt h := by simp [layer?] at h
  declared h := by simp at h

/-- After a layer is appended, the layers are the old ones and the new one. -/
theorem layer?_push (id : Nat) (layer : Layer) (inputs : List Nat) :
    layer? ⟨network.layers.push layer, inputs⟩ id =
      if id = network.size then some layer else network.layer? id := by
  show (network.layers.push layer)[id]? = _
  rw [Array.getElem?_push]
  rfl

/-- Appending a layer that reads existing layers keeps a network well-formed. -/
theorem WellFormed.append {grown : Network} {name : String} {kind : Kind} {inputs : List Nat}
    (h : network.WellFormed) (hinputs : ∀ p ∈ inputs, p < network.size)
    (hgrown : network.append name kind inputs = .ok (grown, id)) :
    grown.WellFormed ∧ id = network.size ∧ grown.inputs = network.inputs ∧
      grown.layer? id = some { id, name, kind, inputs } := by
  unfold Network.append at hgrown
  split at hgrown
  · cases hgrown
  · simp only [Except.ok.injEq, Prod.mk.injEq] at hgrown
    obtain ⟨rfl, rfl⟩ := hgrown
    refine ⟨?_, rfl, rfl, by simp [layer?_push]⟩
    refine ⟨fun hlayer => ?_, fun hlayer => ?_, fun hlayer => ?_, fun hdeclared => ?_⟩
    · rw [layer?_push] at hlayer
      split at hlayer
      · cases hlayer
        simp_all
      · exact h.id_eq hlayer
    · rw [layer?_push] at hlayer
      split at hlayer
      · cases hlayer
        simpa [*] using hinputs
      · exact h.inputs_lt hlayer
    · rw [layer?_push] at hlayer
      have hsize : network.size < size ⟨network.layers.push
          { id := network.size, name, kind, inputs }, network.inputs⟩ := by simp [size]
      split at hlayer
      · cases hlayer
        simp
      · exact fun p hp => (h.recurrent_lt hlayer p hp).trans hsize
    · obtain ⟨layer, hlayer, hkind⟩ := h.declared hdeclared
      refine ⟨layer, ?_, hkind⟩
      rw [layer?_push, if_neg (lt_size hlayer).ne]
      exact hlayer

theorem WellFormed.addInput {grown : Network} {name : String} (h : network.WellFormed)
    (hgrown : network.addInput name = .ok (grown, id)) : grown.WellFormed := by
  unfold Network.addInput at hgrown
  obtain ⟨⟨appended, new⟩, happend, hgrown⟩ := bind_eq_ok.1 hgrown
  simp only [pure, Except.pure, Except.ok.injEq, Prod.mk.injEq] at hgrown
  obtain ⟨rfl, rfl⟩ := hgrown
  obtain ⟨hformed, -, hinputs, hnew⟩ := h.append (by simp) happend
  refine ⟨hformed.id_eq, hformed.inputs_lt, hformed.recurrent_lt, fun hdeclared => ?_⟩
  simp only [List.mem_append, List.mem_singleton] at hdeclared
  rcases hdeclared with hdeclared | rfl
  · exact hformed.declared hdeclared
  · exact ⟨_, hnew, rfl⟩

theorem WellFormed.addLayer {grown : Network} {name : String} {kind : Kind} {inputs : List Nat}
    (h : network.WellFormed) (hgrown : network.addLayer name kind inputs = .ok (grown, id)) :
    grown.WellFormed := by
  unfold Network.addLayer at hgrown
  split at hgrown
  · exact h.addInput hgrown
  · split at hgrown
    · cases hgrown
    · split at hgrown
      · cases hgrown
      · rename_i hfound
        refine (h.append (fun p hp => ?_) hgrown).1
        simpa using List.find?_eq_none.1 hfound p hp

/-- Changing a layer in its parameters or recurrent inputs keeps a network well-formed. -/
theorem WellFormed.modify (h : network.WellFormed) (target : Nat) (change : Layer → Layer)
    (hid : ∀ layer, (change layer).id = layer.id)
    (hkind : ∀ layer, (change layer).kind = layer.kind)
    (hinputs : ∀ layer, (change layer).inputs = layer.inputs)
    (hrecurrent : ∀ layer, ∀ p ∈ (change layer).recurrentInputs,
      p ∈ layer.recurrentInputs ∨ p < network.size) :
    WellFormed { network with layers := network.layers.modify target change } := by
  have hsize : size { network with layers := network.layers.modify target change } =
      network.size := by simp [size]
  have hget : ∀ {id layer},
      layer? { network with layers := network.layers.modify target change } id = some layer →
        ∃ old, network.layer? id = some old ∧ (layer = change old ∨ layer = old) := by
    intro id layer hlayer
    simp only [layer?, Array.getElem?_modify] at hlayer ⊢
    split at hlayer
    · obtain ⟨old, hold, rfl⟩ := Option.map_eq_some_iff.1 hlayer
      exact ⟨old, hold, Or.inl rfl⟩
    · exact ⟨layer, hlayer, Or.inr rfl⟩
  refine ⟨fun hlayer => ?_, fun hlayer => ?_, fun hlayer => ?_, fun {id} hdeclared => ?_⟩
  · obtain ⟨old, hold, rfl | rfl⟩ := hget hlayer
    · rw [hid]
      exact h.id_eq hold
    · exact h.id_eq hold
  · obtain ⟨old, hold, rfl | rfl⟩ := hget hlayer
    · rw [hinputs]
      exact h.inputs_lt hold
    · exact h.inputs_lt hold
  · rw [hsize]
    obtain ⟨old, hold, rfl | rfl⟩ := hget hlayer
    · intro p hp
      rcases hrecurrent old p hp with hp | hp
      · exact h.recurrent_lt hold p hp
      · exact hp
    · exact h.recurrent_lt hold
  · obtain ⟨old, hold, hinput⟩ := h.declared hdeclared
    simp only [layer?] at hold ⊢
    simp only [Array.getElem?_modify, hold]
    split
    · exact ⟨change old, rfl, by rw [hkind, hinput]⟩
    · exact ⟨old, rfl, hinput⟩

theorem WellFormed.setWeights {changed : Network} {weights : List Single}
    {biases : Option (List Single)} (h : network.WellFormed)
    (hchanged : network.setWeights id weights biases = .ok changed) : changed.WellFormed := by
  unfold Network.setWeights at hchanged
  split at hchanged
  · cases hchanged
  · split at hchanged
    · cases hchanged
      exact h.modify id ({ · with weights := some weights, biases }) (fun _ => rfl)
        (fun _ => rfl) (fun _ => rfl) (fun _ _ hp => Or.inl hp)
    · cases hchanged

theorem WellFormed.addRecurrentEdge {changed : Network} {source target : Nat}
    (h : network.WellFormed) (hchanged : network.addRecurrentEdge source target = .ok changed) :
    changed.WellFormed := by
  unfold Network.addRecurrentEdge at hchanged
  split at hchanged
  · cases hchanged
  · rename_i hsource
    split at hchanged
    · cases hchanged
    · split at hchanged
      · cases hchanged
        exact h
      · cases hchanged
        refine h.modify target (fun layer =>
            { layer with recurrentInputs := layer.recurrentInputs ++ [source] })
          (fun _ => rfl) (fun _ => rfl) (fun _ => rfl) (fun layer p hp => ?_)
        simp only [List.mem_append, List.mem_singleton] at hp
        rcases hp with hp | rfl
        · exact Or.inl hp
        · exact Or.inr (by omega)

/-- Every network that was built is well-formed. -/
theorem Built.wellFormed (h : network.Built) : network.WellFormed := by
  induction h with
  | empty => exact wellFormed_empty
  | addInput _ hgrown ih => exact ih.addInput hgrown
  | addLayer _ hgrown ih => exact ih.addLayer hgrown
  | setWeights _ hchanged ih => exact ih.setWeights hchanged
  | addRecurrentEdge _ hchanged ih => exact ih.addRecurrentEdge hchanged

end Network

end LayerQuant
