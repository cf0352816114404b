import Mathlib
import LayerQuant.Proofs.InsertionOrder

/-!
# Checked accesses

The loops of this library read and write arrays at the ids of layers, and an index that is out of
range has no effect on them. This module begins a second form of these loops, named with a question
mark, in which each access is made on its own and there is no result once an index is out of range.
It has the accesses, and the arrays that are made from the edges of a network: the lists of readers
(`gather?`), and from them the topological order. The order of a well-formed network is found
without an access out of range (`WellFormed.order?_eq`).
-/

namespace LayerQuant

/-! ## Accesses and loops -/

section

variable {α β σ : Type}

/-- Writes an element of an array, if the index is in range. -/
def write? (items : Array α) (index : Nat) (item : α) : Option (Array α) :=
  if index < items.size then some (items.setIfInBounds index item) else none

theorem write?_eq {items : Array α} {index : Nat} (h : index < items.size) (item : α) :
    write? items index item = some (items.setIfInBounds index item) :=
  if_pos h

/-- An element that is in range is the one that reading with a default finds. -/
theorem getElem?_eq_getD {items : Array α} {index : Nat} (h : index < items.size) (default : α) :
    items[index]? = some (items.getD index default) := by
  simp [Array.getD_eq_getD_getElem?, h]

/-- A loop whose steps all have a result has the result of the loop without checks. `P` holds
between the steps. -/
theorem foldlM_eq_some {step? : σ → α → Option σ} {step : σ → α → σ} (P : σ → Prop)
    (items : List α) {state : σ} (hstate : P state)
    (hstep : ∀ item ∈ items, ∀ state, P state →
      step? state item = some (step state item) ∧ P (step state item)) :
    items.foldlM step? state = some (items.foldl step state) ∧ P (items.foldl step state) := by
  induction items generalizing state with
  | nil => exact ⟨rfl, hstate⟩
  | cons item rest ih =>
      obtain ⟨hsome, hnext⟩ := hstep item List.mem_cons_self state hstate
      rw [List.foldlM_cons, hsome, List.foldl_cons]
      exact ih hnext fun later hlater => hstep later (List.mem_cons_of_mem _ hlater)

/-- Values that can all be computed are computed one after the other. -/
theorem mapM_eq_some {compute? : α → Option β} {compute : α → β} {items : List α}
    (h : ∀ item ∈ items, compute? item = some (compute item)) :
    items.mapM compute? = some (items.map compute) := by
  induction items with
  | nil => rfl
  | cons item rest ih =>
      rw [List.mapM_cons, h item List.mem_cons_self,
        ih fun later hlater => h later (List.mem_cons_of_mem _ hlater)]
      rfl

end

/-! ## Readers of a layer -/

namespace Network

/-- The edges of a network along some of the inputs of its layers, from the reader to the layer it
reads. -/
def edges (network : Network) (read : Layer → List Nat) : List (Nat × Nat) :=
  network.layers.toList.flatMap fun layer => (read layer).map fun p => (layer.id, p)

/-- The readers of a layer along given edges, once for each edge. -/
def readers (edges : List (Nat × Nat)) (id : Nat) : List Nat :=
  (edges.filter (·.2 == id)).map (·.1)

/-- Adds the reader of an edge to the list kept for the layer that it reads. -/
def gatherEdge? (add : List Nat → Nat → List Nat) (lists : Array (List Nat)) (edge : Nat × Nat) :
    Option (Array (List Nat)) := do
  let known ← lists[edge.2]?
  write? lists edge.2 (add known edge.1)

/-- For every layer the readers along some of the inputs, added to a list one by one. -/
def gather? (network : Network) (read : Layer → List Nat) (add : List Nat → Nat → List Nat) :
    Option (Array (List Nat)) :=
  (network.edges read).foldlM (gatherEdge? add) (Array.replicate network.size [])

/-- Appends a reader that is not in the list. -/
def addNew (known : List Nat) (reader : Nat) : List Nat :=
  if reader ∈ known then known else known ++ [reader]

variable {network : Network}

/-- The edges of a layer end where it reads. -/
theorem mem_edges {read : Layer → List Nat} {edge : Nat × Nat} :
    edge ∈ network.edges read ↔
      ∃ layer ∈ network.layers.toList, edge.2 ∈ read layer ∧ edge.1 = layer.id := by
  unfold edges
  rw [List.mem_flatMap]
  refine exists_congr fun layer => and_congr_right fun _ => ?_
  rw [List.mem_map]
  constructor
  · rintro ⟨p, hp, rfl⟩
    exact ⟨hp, rfl⟩
  · rintro ⟨hp, hid⟩
    exact ⟨edge.2, hp, Prod.ext hid.symm rfl⟩

theorem foldlM_gatherEdge? (add : List Nat → Nat → List Nat) (size : Nat)
    (edges : List (Nat × Nat)) (hedges : ∀ edge ∈ edges, edge.2 < size)
    (lists : Array (List Nat)) (hsize : lists.size = size) :
    edges.foldlM (gatherEdge? add) lists =
      some (Array.ofFn fun id : Fin size => (readers edges id).foldl add (lists.getD id [])) := by
  induction edges generalizing lists with
  | nil =>
      refine congrArg some (Array.ext (by simp [hsize]) fun id hid _ => ?_)
      simp [readers, Array.getD_eq_getD_getElem?, hid]
  | cons edge rest ih =>
      have hedge : edge.2 < lists.size := by
        rw [hsize]
        exact hedges edge List.mem_cons_self
      have hstep : gatherEdge? add lists edge =
          some (lists.setIfInBounds edge.2 (add (lists.getD edge.2 []) edge.1)) := by
        unfold gatherEdge?
        rw [getElem?_eq_getD hedge []]
        exact write?_eq hedge _
      rw [List.foldlM_cons, hstep]
      refine (ih (fun later hlater => hedges later (List.mem_cons_of_mem _ hlater)) _
        (by simp [hsize])).trans (congrArg some (congrArg Array.ofFn (funext fun id => ?_)))
      -- The edge adds its reader to one list and leaves the others alone.
      by_cases heq : edge.2 = id
      · simp [readers, heq, Array.getD_eq_getD_getElem?, hsize]
      · simp [readers, heq, Array.getD_eq_getD_getElem?]

/-- If all layers that are read exist, the lists hold what their readers add up to. -/
theorem gather?_eq {read : Layer → List Nat} (add : List Nat → Nat → List Nat)
    (hread : ∀ layer ∈ network.layers.toList, ∀ p ∈ read layer, p < network.size) :
    network.gather? read add =
      some (Array.ofFn fun id : Fin network.size =>
        (readers (network.edges read) id).foldl add []) := by
  refine (foldlM_gatherEdge? add network.size _ (fun edge hedge => ?_) _ (by simp)).trans
    (congrArg some (congrArg Array.ofFn (funext fun id => ?_)))
  · obtain ⟨layer, hlayer, hp, _⟩ := mem_edges.1 hedge
    exact hread layer hlayer _ hp
  · simp [Array.getD_eq_getD_getElem?]

/-- The readers along forward edges are the consumers. -/
theorem readers_inputs (id : Nat) :
    readers (network.edges (·.inputs)) id = network.consumers id := by
  unfold readers edges consumers
  rw [List.filter_flatMap, List.map_flatMap]
  refine congrArg (List.flatMap · _) (funext fun layer => ?_)
  rw [List.filter_map, List.map_map]
  rfl

/-- A reader that is added again and again is added once. -/
theorem foldl_addNew_replicate {known : List Nat} {reader : Nat} (hnew : reader ∉ known)
    (count : Nat) : (List.replicate count reader).foldl addNew known =
      if count = 0 then known else known ++ [reader] := by
  have hagain (more : Nat) : (List.replicate more reader).foldl addNew (known ++ [reader]) =
      known ++ [reader] := by
    induction more with
    | zero => rfl
    | succ more ih =>
        rw [List.replicate_succ, List.foldl_cons]
        have hknown : addNew (known ++ [reader]) reader = known ++ [reader] := if_pos (by simp)
        rw [hknown, ih]
  cases count with
  | zero => rfl
  | succ count =>
      have hfirst : addNew known reader = known ++ [reader] := if_neg hnew
      rw [List.replicate_succ, List.foldl_cons, hfirst, hagain, if_neg (Nat.succ_ne_zero count)]

/-- Along all producers, each layer is added once to the lists of those it reads. -/
theorem foldl_addNew_readers (id : Nat) (layers : List Layer) (hnodup : (layers.map (·.id)).Nodup)
    (known : List Nat) (hknown : ∀ layer ∈ layers, layer.id ∉ known) :
    (readers (layers.flatMap fun layer => layer.predecessors.map fun p => (layer.id, p)) id).foldl
        addNew known =
      known ++ (layers.filter (·.predecessors.contains id)).map (·.id) := by
  induction layers generalizing known with
  | nil => simp [readers]
  | cons layer rest ih =>
      rw [List.map_cons, List.nodup_cons] at hnodup
      obtain ⟨hfresh, hnodup⟩ := hnodup
      have hown : readers (layer.predecessors.map fun p => (layer.id, p)) id =
          List.replicate (layer.predecessors.count id) layer.id := by
        unfold readers
        rw [List.filter_map, List.map_map, List.count_eq_length_filter]
        exact List.map_const' ..
      have hsplit (first rest : List (Nat × Nat)) :
          readers (first ++ rest) id = readers first id ++ readers rest id := by
        simp [readers]
      rw [List.flatMap_cons, hsplit, hown, List.foldl_append,
        foldl_addNew_replicate (hknown layer List.mem_cons_self)]
      have hlater : ∀ other ∈ rest, other.id ∉ known ++ [layer.id] := by
        intro other hother hmem
        rcases List.mem_append.1 hmem with hmem | hmem
        · exact hknown other (List.mem_cons_of_mem _ hother) hmem
        · exact hfresh (List.mem_map.2 ⟨other, hother, List.mem_singleton.1 hmem⟩)
      by_cases hreads : id ∈ layer.predecessors
      · have hcount : layer.predecessors.count id ≠ 0 :=
          (List.count_pos_iff.2 hreads).ne'
        rw [if_neg hcount, ih hnodup _ hlater]
        simp [hreads]
      · rw [List.count_eq_zero_of_not_mem hreads, if_pos rfl,
          ih hnodup known fun other hother => hknown other (List.mem_cons_of_mem _ hother)]
        simp [hreads]

/-- The lists of successors, filled without an access out of range. -/
theorem WellFormed.successorLists?_eq (hformed : network.WellFormed) :
    network.gather? (·.predecessors) addNew = some network.successorLists := by
  have hread : ∀ layer ∈ network.layers.toList, ∀ p ∈ layer.predecessors, p < network.size :=
    fun layer hlayer p hp => hformed.predecessor_lt (hformed.layer?_id hlayer) hp
  rw [gather?_eq addNew hread]
  refine congrArg some (congrArg Array.ofFn (funext fun id => ?_))
  have hnodup : (network.layers.toList.map (·.id)).Nodup := by
    rw [hformed.map_id]
    exact List.nodup_range
  exact (foldl_addNew_readers id _ hnodup [] (by simp)).trans (List.nil_append _)

/-- The lists of consumers, filled without an access out of range. -/
theorem WellFormed.consumerLists?_eq (hformed : network.WellFormed) :
    network.gather? (·.inputs) (fun known reader => known ++ [reader]) =
      some (Array.ofFn fun id : Fin network.size => network.consumers id) := by
  have hread : ∀ layer ∈ network.layers.toList, ∀ p ∈ layer.inputs, p < network.size :=
    fun layer hlayer p hp =>
      hformed.predecessor_lt (hformed.layer?_id hlayer) (List.mem_append_left _ hp)
  have happend (more known : List Nat) :
      more.foldl (fun known reader => known ++ [reader]) known = known ++ more := by
    induction more generalizing known with
    | nil => simp
    | cons reader rest ih => simp [ih]
  rw [gather?_eq _ hread]
  refine congrArg some (congrArg Array.ofFn (funext fun id => ?_))
  rw [happend, readers_inputs, List.nil_append]

end Network

/-! ## The topological order -/

namespace Placement

/-- Places the first ready layer, whose consumers are found in their list, and serves an edge of
each of them. A consumer without a counter is refused like one whose counter is zero. -/
def stepIn? (consumers : Array (List Nat)) (placement : Placement) : Option Placement :=
  match placement.ready with
  | [] => some placement
  | id :: rest => do
    let served ← consumers[id]?
    served.foldlM serve? { placement with placed := placement.placed ++ [id], ready := rest }

/-- Places layers until none is ready, which takes at most the given number of steps. -/
def runIn? (consumers : Array (List Nat)) : Nat → Placement → Option Placement
  | 0, placement => if placement.ready.isEmpty then some placement else none
  | count + 1, placement => placement.stepIn? consumers >>= runIn? consumers count

variable {network : Network} {placement : Placement} {k : Nat}

theorem AtLayer.stepIn? (hformed : network.WellFormed) (h : AtLayer network k placement)
    (hk : k < network.size) :
    placement.stepIn? (Array.ofFn fun id : Fin network.size => network.consumers id) =
      some (placement.step network) := by
  obtain ⟨rest, hready⟩ := h.ready_eq hformed hk
  rw [← h.step? hformed hk]
  unfold Placement.stepIn? Placement.step?
  rw [hready]
  simp [hk]

theorem AtLayer.runIn? (hformed : network.WellFormed) (count : Nat)
    (h : AtLayer network k placement) (hcount : k + count = network.size) :
    placement.runIn? (Array.ofFn fun id : Fin network.size => network.consumers id) count =
      some (placement.run network count) := by
  induction count generalizing k placement with
  | zero =>
      obtain rfl : k = network.size := hcount
      exact if_pos (by simp [h.ready_eq_nil])
  | succ count ih =>
      have hk : k < network.size := by omega
      rw [Placement.runIn?, h.stepIn? hformed hk]
      exact ih (h.step hformed hk) (by omega)

end Placement

namespace Network

/-- The topological order over forward edges, found with lists of consumers and with a counter for
every layer. -/
def order? (network : Network) : Option (Except GraphError (List Nat)) := do
  let consumers ← network.gather? (·.inputs) (fun known reader => known ++ [reader])
  let placement ← Placement.runIn? consumers network.size (.start network)
  some
    (if placement.placed.length = network.size then .ok placement.placed
      else .error (.cycle placement.placed.length network.size))

/-- The order of a well-formed network is found without an access out of range. -/
theorem WellFormed.order?_eq {network : Network} (hformed : network.WellFormed) :
    network.order? = some network.topologicalOrder := by
  have hrun := (Placement.AtLayer.start network).runIn? hformed network.size (Nat.zero_add _)
  unfold order? topologicalOrder
  rw [hformed.consumerLists?_eq]
  simp only [Option.bind_eq_bind, Option.bind_some, hrun]

end Network

end LayerQuant
