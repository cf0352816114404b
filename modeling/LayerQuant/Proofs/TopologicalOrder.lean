import Mathlib
import LayerQuant.Graph.Order
import LayerQuant.Proofs.Construction

/-!
# The topological order is the order of insertion

Forward inputs of a layer come before it, so the layer with the smallest id that is not placed is
always ready, and it is the one that is placed next. `Placement.AtLayer` is the state before layer
`k` is placed; `AtLayer.step` carries it to the next layer, and `topologicalOrder_eq` reads off the
order. What arrays of flags and counters read after a write is stated first, for this search and
the later ones.
-/

namespace LayerQuant

section Entries

variable {α : Type} {entries : Array α} {position other : Nat}

/-- An entry that is written leaves the others alone. -/
theorem getD_set_of_ne (hne : other ≠ position) (entry default : α) :
    (entries.setIfInBounds position entry).getD other default = entries.getD other default := by
  rw [Array.getD_eq_getD_getElem?, Array.getElem?_setIfInBounds_ne hne.symm,
    ← Array.getD_eq_getD_getElem?]

/-- What an array reads after an entry in its bounds is written. -/
theorem getD_set (hposition : position < entries.size) (entry default : α) (other : Nat) :
    (entries.setIfInBounds position entry).getD other default =
      if other = position then entry else entries.getD other default := by
  split
  · rename_i heq
    rw [heq, Array.getD_eq_getD_getElem?, Array.getElem?_setIfInBounds_self_of_lt hposition,
      Option.getD_some]
  · rename_i hne
    exact getD_set_of_ne hne entry default

/-- Beyond its bounds an array reads its default. -/
theorem lt_of_getD_ne {default : α} (h : entries.getD position default ≠ default) :
    position < entries.size := by
  by_contra hout
  refine h ?_
  rw [Array.getD_eq_getD_getElem?, Array.getElem?_eq_none (Nat.le_of_not_lt hout),
    Option.getD_none]

end Entries

namespace Network

variable {network : Network}

/-- The number of forward edges into layer `id` from layers that are not among the first `k`. -/
def unserved (network : Network) (k id : Nat) : Nat :=
  match network.layer? id with
  | some layer => layer.inputs.countP (k ≤ ·)
  | none => 0

/-- In a well-formed network the ids run through the positions. -/
theorem WellFormed.map_id (h : network.WellFormed) :
    network.layers.toList.map (·.id) = List.range network.size := by
  apply List.ext_getElem
  · simp [size]
  · intro i hleft _
    simp only [List.getElem_map, List.getElem_range]
    apply h.id_eq
    have hlt : i < network.layers.size := by simpa using hleft
    simp [layer?, hlt]

/-- Among layers with distinct ids, the number of forward edges from `source` to `target` is counted
at the target. -/
theorem count_flatMap_edges (source target : Nat) (layers : List Layer)
    (hnodup : (layers.map (·.id)).Nodup) :
    (layers.flatMap fun layer =>
      (layer.inputs.filter (· == source)).map fun _ => layer.id).count target =
      match layers.find? (·.id == target) with
      | some layer => layer.inputs.count source
      | none => 0 := by
  induction layers with
  | nil => rfl
  | cons layer rest ih =>
      obtain ⟨hnew, hrest⟩ := List.nodup_cons.1 hnodup
      have hhead : ((layer.inputs.filter (· == source)).map fun _ => layer.id).count target =
          if layer.id = target then layer.inputs.count source else 0 := by
        rw [List.map_const', List.count_replicate, List.count, List.countP_eq_length_filter]
        simp
      rw [List.flatMap_cons, List.count_append, hhead, ih hrest, List.find?_cons]
      by_cases heq : layer.id = target
      · have hnone : rest.find? (·.id == target) = none := by
          rw [List.find?_eq_none]
          intro other hother hid
          exact hnew (List.mem_map.2 ⟨other, hother, (beq_iff_eq.1 hid).trans heq.symm⟩)
        simp [heq, hnone]
      · have hbeq : (layer.id == target) = false := by simp [heq]
        simp [heq, hbeq]

/-- A layer of a well-formed network is the first one with its id. -/
theorem WellFormed.find?_id (h : network.WellFormed) (id : Nat) :
    network.layers.toList.find? (·.id == id) = network.layer? id := by
  cases hlayer : network.layer? id with
  | none =>
      rw [List.find?_eq_none]
      intro layer hmem hid
      rw [← beq_iff_eq.1 hid, h.layer?_id hmem] at hlayer
      cases hlayer
  | some layer =>
      cases hfound : network.layers.toList.find? (·.id == id) with
      | none =>
          have := List.find?_eq_none.1 hfound layer (layer?_mem hlayer)
          simp [h.id_eq hlayer] at this
      | some other =>
          have hother := h.layer?_id (List.mem_of_find?_eq_some hfound)
          have hid := List.find?_some hfound
          rw [beq_iff_eq.1 hid, hlayer] at hother
          exact hother.symm

/-- Serving the edges from layer `k` is what takes `unserved` from `k` to `k + 1`. -/
theorem WellFormed.unserved_succ (h : network.WellFormed) (k id : Nat) :
    network.unserved (k + 1) id = network.unserved k id - (network.consumers k).count id ∧
      (network.consumers k).count id ≤ network.unserved k id := by
  have hsplit : ∀ inputs : List Nat,
      inputs.countP (k ≤ ·) = inputs.count k + inputs.countP (k + 1 ≤ ·) := by
    intro inputs
    induction inputs with
    | nil => rfl
    | cons p rest ih =>
        simp only [List.countP_cons, List.count_cons, ih, decide_eq_true_eq, beq_iff_eq]
        split <;> split <;> split <;> omega
  unfold consumers unserved
  rw [count_flatMap_edges k id _ (by rw [h.map_id]; exact List.nodup_range), h.find?_id]
  cases network.layer? id with
  | none => simp
  | some layer => simp [hsplit layer.inputs]

/-- Consumers come after the layer they read. -/
theorem WellFormed.mem_consumers (h : network.WellFormed) {k id : Nat}
    (hid : id ∈ network.consumers k) : k + 1 ≤ id ∧ id < network.size := by
  simp only [consumers, List.mem_flatMap, List.mem_map, List.mem_filter, beq_iff_eq] at hid
  obtain ⟨layer, hmem, p, ⟨hp, rfl⟩, rfl⟩ := hid
  have hlayer := h.layer?_id hmem
  exact ⟨h.inputs_lt hlayer p hp, lt_size hlayer⟩

end Network

namespace Placement

/-- The number of forward edges into a layer that are not served yet. -/
def left (placement : Placement) (id : Nat) : Nat := placement.pending.getD id 0

/-- The ready list is ascending and holds exactly the layers from `k` on without unserved edges. -/
structure Ready (size k : Nat) (placement : Placement) : Prop where
  size_eq : placement.pending.size = size
  ascending : placement.ready.Pairwise (· < ·)
  mem_iff : ∀ id, id ∈ placement.ready ↔ k ≤ id ∧ id < size ∧ placement.left id = 0

/-- The first `k` layers are placed, and the edges that come from them are served. -/
structure AtLayer (network : Network) (k : Nat) (placement : Placement) : Prop where
  placed : placement.placed = List.range k
  ready : Ready network.size k placement
  left : ∀ id, id < network.size → placement.left id = network.unserved k id

theorem mem_insertReady {id other : Nat} {ready : List Nat} :
    other ∈ insertReady id ready ↔ other = id ∨ other ∈ ready := by
  induction ready with
  | nil => simp [insertReady]
  | cons next rest ih =>
      unfold insertReady
      split
      · simp
      · simp only [List.mem_cons, ih]
        tauto

/-- A new id keeps an ascending list ascending. -/
theorem insertReady_ascending {id : Nat} {ready : List Nat} (h : ready.Pairwise (· < ·))
    (hnew : id ∉ ready) : (insertReady id ready).Pairwise (· < ·) := by
  induction ready with
  | nil => simp [insertReady]
  | cons next rest ih =>
      obtain ⟨hnext, hrest⟩ := List.pairwise_cons.1 h
      have hne : id ≠ next := fun heq => hnew (by simp [heq])
      unfold insertReady
      split
      · refine List.pairwise_cons.2 ⟨fun other hother => ?_, h⟩
        rcases List.mem_cons.1 hother with rfl | hother
        · omega
        · have := hnext other hother
          omega
      · refine List.pairwise_cons.2 ⟨fun other hother => ?_,
          ih hrest (fun hmem => hnew (List.mem_cons_of_mem _ hmem))⟩
        rcases mem_insertReady.1 hother with rfl | hother
        · omega
        · exact hnext other hother

variable {size k : Nat} {placement : Placement}

theorem left_serve {id : Nat} (hid : id < placement.pending.size) (other : Nat) :
    (placement.serve id).left other =
      if other = id then placement.left id - 1 else placement.left other := by
  unfold left serve
  exact getD_set hid _ 0 other

theorem ready_serve (placement : Placement) (id : Nat) :
    (placement.serve id).ready =
      if placement.left id - 1 = 0 then insertReady id placement.ready else placement.ready :=
  rfl

/-- Serving an edge that is not served yet keeps the ready list. -/
theorem Ready.serve (h : Ready size k placement) {id : Nat} (hk : k ≤ id) (hid : id < size)
    (hleft : 0 < placement.left id) : Ready size k (placement.serve id) := by
  have hbound : id < placement.pending.size := by rw [h.size_eq]; exact hid
  have hnew : id ∉ placement.ready := by
    intro hmem
    have := ((h.mem_iff id).1 hmem).2.2
    omega
  refine ⟨by simp [Placement.serve, h.size_eq], ?_, fun other => ?_⟩
  · rw [ready_serve]
    split
    · exact insertReady_ascending h.ascending hnew
    · exact h.ascending
  · have hready : other ∈ (placement.serve id).ready ↔
        (other = id ∧ placement.left id - 1 = 0) ∨ other ∈ placement.ready := by
      rw [ready_serve]
      split
      · rw [mem_insertReady]
        tauto
      · tauto
    rw [hready, left_serve hbound, h.mem_iff]
    by_cases heq : other = id
    · subst heq
      rw [if_pos rfl]
      omega
    · simp [heq]

/-- Serving a list of edges takes as many off each layer as the list has. -/
theorem Ready.foldl_serve (h : Ready size k placement) (edges : List Nat)
    (hmem : ∀ id ∈ edges, k ≤ id ∧ id < size)
    (hleft : ∀ id, edges.count id ≤ placement.left id) :
    Ready size k (edges.foldl Placement.serve placement) ∧
      (edges.foldl Placement.serve placement).placed = placement.placed ∧
      ∀ id, (edges.foldl Placement.serve placement).left id =
        placement.left id - edges.count id := by
  induction edges generalizing placement with
  | nil => exact ⟨h, rfl, fun id => by simp⟩
  | cons edge rest ih =>
      obtain ⟨hk, hlt⟩ := hmem edge List.mem_cons_self
      have hbound : edge < placement.pending.size := by rw [h.size_eq]; exact hlt
      have hcount : ∀ id, (edge :: rest).count id =
          rest.count id + if id = edge then 1 else 0 := by
        intro id
        rw [List.count_cons]
        by_cases heq : id = edge
        · simp [heq]
        · simp [heq, Ne.symm heq]
      have hpos : 0 < placement.left edge := by
        have := hleft edge
        rw [hcount, if_pos rfl] at this
        omega
      have hrest : ∀ id, rest.count id ≤ (placement.serve edge).left id := by
        intro id
        have := hleft id
        rw [hcount] at this
        rw [left_serve hbound]
        split
        · simp_all
          omega
        · simp_all
      obtain ⟨hready, hplaced, hserved⟩ :=
        ih (h.serve hk hlt hpos) (fun id hid => hmem id (List.mem_cons_of_mem _ hid)) hrest
      refine ⟨hready, hplaced, fun id => ?_⟩
      rw [List.foldl_cons, hserved, left_serve hbound, hcount]
      split
      · simp_all
        omega
      · simp

variable {network : Network}

theorem AtLayer.start (network : Network) : AtLayer network 0 (.start network) := by
  refine ⟨rfl, ⟨by simp [Placement.start, Network.size], ?_, fun id => ?_⟩, fun id hid => ?_⟩
  · exact List.pairwise_lt_range.sublist List.filter_sublist
  · simp [Placement.start, Placement.left]
  · obtain ⟨layer, hlayer⟩ := Network.exists_layer hid
    have hget : network.layers[id]? = some layer := hlayer
    simp [Placement.start, Placement.left, Network.unserved, hlayer, hget,
      Array.getD_eq_getD_getElem?]

/-- The first unplaced layer heads the ready list, as all its edges are served. -/
theorem AtLayer.ready_eq (hformed : network.WellFormed) (h : AtLayer network k placement)
    (hk : k < network.size) : ∃ rest, placement.ready = k :: rest := by
  have hzero : placement.left k = 0 := by
    rw [h.left k hk]
    obtain ⟨layer, hlayer⟩ := Network.exists_layer hk
    simp only [Network.unserved, hlayer, List.countP_eq_zero, decide_eq_true_eq, not_le]
    exact hformed.inputs_lt hlayer
  have hmem := (h.ready.mem_iff k).2 ⟨le_rfl, hk, hzero⟩
  have hascending := h.ready.ascending
  cases hready : placement.ready with
  | nil => simp [hready] at hmem
  | cons next rest =>
      rw [hready] at hmem hascending
      have hnext := ((h.ready.mem_iff next).1 (by simp [hready])).1
      rcases List.mem_cons.1 hmem with rfl | hlater
      · exact ⟨rest, rfl⟩
      · have := (List.pairwise_cons.1 hascending).1 k hlater
        omega

/-- Taking the first ready layer leaves the layers after it ready. -/
theorem Ready.take (h : Ready size k placement) {rest : List Nat}
    (hready : placement.ready = k :: rest) :
    Ready size (k + 1) { placement with placed := placement.placed ++ [k], ready := rest } := by
  have hascending := h.ascending
  rw [hready] at hascending
  obtain ⟨hlater, hrest⟩ := List.pairwise_cons.1 hascending
  refine ⟨h.size_eq, hrest, fun id => ?_⟩
  have hiff := h.mem_iff id
  rw [hready, List.mem_cons] at hiff
  constructor
  · intro hid
    have := hlater id hid
    have := hiff.1 (Or.inr hid)
    exact ⟨by omega, this.2⟩
  · intro hid
    exact (hiff.2 ⟨by omega, hid.2⟩).resolve_left (by omega)

/-- Layer `k` serves no layer more often than that one has open edges. -/
theorem AtLayer.count_consumers_le (hformed : network.WellFormed)
    (h : AtLayer network k placement) (id : Nat) :
    (network.consumers k).count id ≤ placement.left id := by
  by_cases hid : id < network.size
  · rw [h.left id hid]
    exact (hformed.unserved_succ k id).2
  · rw [List.count_eq_zero_of_not_mem]
    · exact Nat.zero_le _
    · exact fun hmem => hid (hformed.mem_consumers hmem).2

/-- Placing layer `k`, the first ready one, and serving its edges leads to the next layer. -/
theorem AtLayer.step (hformed : network.WellFormed) (h : AtLayer network k placement)
    (hk : k < network.size) : AtLayer network (k + 1) (placement.step network) := by
  obtain ⟨rest, hready⟩ := h.ready_eq hformed hk
  obtain ⟨hnext, hplaced, hleft⟩ := (h.ready.take hready).foldl_serve (network.consumers k)
    (fun id hid => hformed.mem_consumers hid) (fun id => h.count_consumers_le hformed id)
  have hstep : placement.step network = (network.consumers k).foldl Placement.serve
      { placement with placed := placement.placed ++ [k], ready := rest } := by
    simp only [Placement.step, hready]
  rw [hstep]
  refine ⟨?_, hnext, fun id hid => ?_⟩
  · rw [hplaced, h.placed, List.range_succ]
  · rw [hleft, (hformed.unserved_succ k id).1, ← h.left id hid]
    rfl

theorem AtLayer.run (hformed : network.WellFormed) (count : Nat) (h : AtLayer network k placement)
    (hcount : k + count ≤ network.size) :
    AtLayer network (k + count) (placement.run network count) := by
  induction count generalizing k placement with
  | zero => exact h
  | succ count ih =>
      have := ih (h.step hformed (by omega)) (by omega)
      rwa [Nat.add_right_comm] at this

end Placement

/-- The topological order of a well-formed network is the order of insertion. -/
theorem Network.WellFormed.topologicalOrder_eq {network : Network} (h : network.WellFormed) :
    network.topologicalOrder = .ok (List.range network.size) := by
  have hrun := (Placement.AtLayer.start network).run h network.size (by omega)
  rw [Nat.zero_add] at hrun
  simp [Network.topologicalOrder, hrun.placed]

end LayerQuant
