import Mathlib
import LayerQuant.Proofs.CheckedOrder
import LayerQuant.Proofs.Convergence

/-!
# Propagation with checked accesses

The checked form of the propagation of ranges. A visit reads and changes the entries of a layer and
of its producers, forward and recurrent; a step clears the flag of the visited layer, looks up the
successors of the layers that changed, and reads and sets flags of those. All of them are layers of
the network, and a table that is shorter than the network is refused before the first visit, so
nothing is out of range (`propagate?_eq`).
-/

namespace LayerQuant

namespace EdgeTable

/-! ## A visit -/

/-- The entry of a layer, if it has one. -/
def entry? (table : EdgeTable) (id : Nat) : Option LayerEdges := table.layers[id]?

/-- Changes the entry of a layer, if it has one. -/
def modify? (table : EdgeTable) (id : Nat) (change : LayerEdges → LayerEdges) : Option EdgeTable :=
  if id < table.size then some (table.modify id change) else none

/-- The largest range known at the outputs of a layer's producers. -/
def arriving? (table : EdgeTable) (layer : Layer) : Option (Option Single) := do
  let entries ← layer.predecessors.mapM table.entry?
  some (Binary.largest? (entries.filterMap (·.output.knownRange?)))

/-- Joins the range that arrives at a layer into its own tensors, if it has an entry. No other entry
is read or changed. -/
def joinLayer? (alters : Layer → Bool) (layer : Layer) (arriving : Single) (table : EdgeTable) :
    Option (EdgeTable × Single × Bool) :=
  if layer.id < table.size then some (table.joinLayer alters layer arriving) else none

/-- Joins a range into the outputs of the given layers and collects those that changed. -/
def raiseOutputs? (range : Single) : List Nat → EdgeTable → Option (EdgeTable × List Nat)
  | [], table => some (table, [])
  | id :: rest, table => do
    let entry ← table.entry? id
    let raised ← table.modify? id fun entry => { entry with output := entry.output.raise range }
    let (result, changed) ← raiseOutputs? range rest raised
    some (result, if entry.output.raises range then id :: changed else changed)

/-- Visits a layer. -/
def visit? (alters : Layer → Bool) (layer : Layer) (table : EdgeTable) :
    Option (EdgeTable × List Nat) := do
  match ← table.arriving? layer with
  | none => some (table, [])
  | some arriving =>
    let (table, range, grew) ← table.joinLayer? alters layer arriving
    let own := if grew then [layer.id] else []
    if .zero < range then
      let (table, changed) ← raiseOutputs? range layer.predecessors table
      some (table, own ++ changed)
    else some (table, own)

variable {alters : Layer → Bool} {layer : Layer} {table : EdgeTable} {range : Single} {id : Nat}

theorem entry?_eq (h : id < table.size) : table.entry? id = some (table.get id) :=
  getElem?_eq_getD h {}

theorem modify?_eq (h : id < table.size) (change : LayerEdges → LayerEdges) :
    table.modify? id change = some (table.modify id change) :=
  if_pos h

theorem arriving?_eq (h : ∀ p ∈ layer.predecessors, p < table.size) :
    table.arriving? layer = some (table.arrivingRange? layer) := by
  unfold arriving? arrivingRange?
  rw [mapM_eq_some fun p hp => entry?_eq (h p hp)]
  simp [List.filterMap_map]

theorem raiseOutputs?_eq (ids : List Nat) (h : ∀ id ∈ ids, id < table.size) :
    raiseOutputs? range ids table = some (raiseOutputs range ids table) := by
  induction ids generalizing table with
  | nil => rfl
  | cons id rest ih =>
      have hid := h id List.mem_cons_self
      have hrest : raiseOutputs? range rest (table.modifyOutput id (·.raise range)) =
          some (raiseOutputs range rest (table.modifyOutput id (·.raise range))) :=
        ih fun later hlater => by
          simpa [modifyOutput] using h later (List.mem_cons_of_mem _ hlater)
      unfold raiseOutputs?
      rw [entry?_eq hid, modify?_eq hid]
      show (raiseOutputs? range rest (table.modifyOutput id (·.raise range)) >>= fun _ => _) = _
      rw [hrest]
      rfl

/-- A visit is in range if the layer and its producers have entries. -/
theorem visit?_eq (hlayer : layer.id < table.size)
    (hproducers : ∀ p ∈ layer.predecessors, p < table.size) :
    table.visit? alters layer = some (table.visit alters layer) := by
  unfold visit? visit
  rw [arriving?_eq hproducers]
  cases table.arrivingRange? layer with
  | none => rfl
  | some arriving =>
      have hjoin : table.joinLayer? alters layer arriving =
          some (table.joinLayer alters layer arriving) := if_pos hlayer
      have hraise : raiseOutputs? (table.joinLayer alters layer arriving).2.1 layer.predecessors
            (table.joinLayer alters layer arriving).1 =
          some (raiseOutputs (table.joinLayer alters layer arriving).2.1 layer.predecessors
            (table.joinLayer alters layer arriving).1) :=
        raiseOutputs?_eq _ fun p hp => by rw [size_joinLayer]; exact hproducers p hp
      simp only [Option.bind_eq_bind, Option.bind_some, hjoin]
      split
      · rw [hraise]
        rfl
      · rfl

end EdgeTable

namespace Worklist

/-! ## The queue -/

/-- Appends a layer unless its flag says that it is waiting already. -/
def enqueue? (work : Worklist) (id : Nat) : Option Worklist := do
  let waiting ← work.queued[id]?
  if waiting then some work
  else
    let queued ← write? work.queued id true
    some { work with queue := work.queue ++ [id], queued }

/-- Queues a layer that changed and its successors. -/
def spread? (successors : Array (List Nat)) (work : Worklist) (id : Nat) : Option Worklist := do
  let affected ← successors[id]?
  (id :: affected).foldlM enqueue? work

/-- Visits the layer taken from the queue, whose rest is given. -/
def step? (alters : Layer → Bool) (network : Network) (successors : Array (List Nat))
    (work : Worklist) (id : Nat) (rest : List Nat) : Option Worklist := do
  let queued ← write? work.queued id false
  let layer ← network.layer? id
  let (table, changed) ← work.table.visit? alters layer
  changed.foldlM (spread? successors) { queue := rest, queued, table, steps := work.steps + 1 }

/-- Visits layers until the queue is empty or no visit is left. The layer that would be visited next
is taken from the queue all the same. -/
def drain? (alters : Layer → Bool) (network : Network) (successors : Array (List Nat)) :
    Nat → Worklist → Option Worklist
  | 0, work =>
    match work.queue with
    | [] => some work
    | id :: _ => (write? work.queued id false).map fun _ => work
  | visits + 1, work =>
    match work.queue with
    | [] => some work
    | id :: rest =>
      work.step? alters network successors id rest >>= drain? alters network successors visits

variable {network : Network} {work : Worklist} {id : Nat}

theorem enqueue?_eq (h : id < work.queued.size) : work.enqueue? id = some (work.enqueue id) := by
  unfold enqueue? enqueue
  rw [getElem?_eq_getD h true]
  cases work.queued.getD id true with
  | true => rfl
  | false =>
      rw [write?_eq h]
      rfl

/-- Successors are layers of the network. -/
theorem lt_of_mem_successors (hformed : network.WellFormed) {p : Nat}
    (h : id ∈ network.successorLists.getD p []) : id < network.size := by
  have hmem : id ∈ network.successors p := by
    by_cases hp : p < network.size
    · simpa [Network.successorLists, Array.getD_eq_getD_getElem?, hp] using h
    · simp [Network.successorLists, Array.getD_eq_getD_getElem?, hp] at h
  obtain ⟨layer, hlayer, rfl⟩ := List.mem_map.1 hmem
  exact Network.lt_size (hformed.layer?_id (List.mem_filter.1 hlayer).1)

/-- Queueing from a layer of the network is in range. -/
theorem Tidy.spread? (hformed : network.WellFormed) (h : Tidy network.size work)
    (hid : id < network.size) :
    work.spread? network.successorLists id =
      some ((id :: network.successorLists.getD id []).foldl Worklist.enqueue work) := by
  have hlists : id < network.successorLists.size := by simpa [Network.successorLists] using hid
  unfold Worklist.spread?
  rw [getElem?_eq_getD hlists []]
  refine (foldlM_eq_some (Tidy network.size) _ h fun next hnext current hcurrent => ?_).1
  have hlt : next < network.size := by
    rcases List.mem_cons.1 hnext with rfl | hnext
    · exact hid
    · exact lt_of_mem_successors hformed hnext
  exact ⟨enqueue?_eq (by rwa [hcurrent.size_eq]), hcurrent.enqueue next⟩

/-- A worklist whose accesses are in range: its queue is tidy, and each layer has an entry. -/
structure InRange (network : Network) (work : Worklist) : Prop where
  tidy : Tidy network.size work
  size_le : network.size ≤ work.table.size

/-- A step is in range, and so is the step after it. -/
theorem InRange.step (hformed : network.WellFormed) (alters : Layer → Bool)
    (h : InRange network work) {rest : List Nat} (hqueue : work.queue = id :: rest) :
    work.step? alters network network.successorLists id rest =
        some (work.step alters network network.successorLists id rest) ∧
      InRange network (work.step alters network network.successorLists id rest) := by
  have hid : id < network.size := (h.tidy.flagged id (by simp [hqueue])).1
  obtain ⟨layer, hlayer⟩ := Network.exists_layer hid
  have hself : layer.id < network.size := by rwa [hformed.id_eq hlayer]
  have hproducers : ∀ p ∈ layer.predecessors, p < network.size :=
    fun p hp => hformed.predecessor_lt hlayer hp
  have hvisited : work.stepVisit alters network id = work.table.visit alters layer := by
    simp [stepVisit, hlayer]
  have hchanged : ∀ changed ∈ (work.table.visit alters layer).2, changed < network.size := by
    intro changed hmem
    rcases EdgeTable.mem_of_mem_visit hmem with rfl | hmem
    · exact hself
    · exact hproducers changed hmem
  have hloop : (work.table.visit alters layer).2.foldlM (Worklist.spread? network.successorLists)
        { queue := rest, queued := work.queued.setIfInBounds id false,
          table := (work.table.visit alters layer).1, steps := work.steps + 1 } =
      some (work.step alters network network.successorLists id rest) ∧
        Tidy network.size (work.step alters network network.successorLists id rest) := by
    rw [step_eq, hvisited, List.foldl_flatMap]
    exact foldlM_eq_some (Tidy network.size) _ (h.tidy.take hqueue _)
      fun changed hmem current hcurrent =>
        ⟨hcurrent.spread? hformed (hchanged changed hmem), hcurrent.foldl_enqueue _⟩
  refine ⟨?_, hloop.2, ?_⟩
  · have hclear : write? work.queued id false = some (work.queued.setIfInBounds id false) :=
      write?_eq (by rwa [h.tidy.size_eq]) false
    have hvisit : work.table.visit? alters layer = some (work.table.visit alters layer) :=
      EdgeTable.visit?_eq (hself.trans_le h.size_le)
        fun p hp => (hproducers p hp).trans_le h.size_le
    unfold step?
    rw [hclear, hlayer]
    simp only [Option.bind_eq_bind, Option.bind_some, hvisit]
    exact hloop.1
  · rw [step_eq, table_foldl_enqueue, hvisited, EdgeTable.size_visit]
    exact h.size_le

theorem InRange.drain? (hformed : network.WellFormed) (alters : Layer → Bool) (visits : Nat)
    (h : InRange network work) :
    work.drain? alters network network.successorLists visits =
        some (work.drain alters network network.successorLists visits) ∧
      InRange network (work.drain alters network network.successorLists visits) := by
  induction visits generalizing work with
  | zero =>
      refine ⟨?_, h⟩
      unfold Worklist.drain? Worklist.drain
      cases hqueue : work.queue with
      | nil => rfl
      | cons id rest =>
          have hid := (h.tidy.flagged id (by simp [hqueue])).1
          dsimp only
          rw [write?_eq (by rwa [h.tidy.size_eq])]
          rfl
  | succ visits ih =>
      unfold Worklist.drain? Worklist.drain
      cases hqueue : work.queue with
      | nil => exact ⟨rfl, h⟩
      | cons id rest =>
          obtain ⟨hstep, hnext⟩ := h.step hformed alters hqueue
          dsimp only
          rw [hstep]
          exact ih hnext

end Worklist

namespace Propagator

/-! ## The propagation -/

/-- The anomaly of a layer, which is made of the layer's entry. -/
def findAnomaly? (propagator : Propagator) (table : EdgeTable) (layer : Layer) :
    Option (Option RangeAnomaly) :=
  if layer.id < table.size then some (propagator.anomaly? table layer) else none

/-- What a propagation returns when it has made its visits. -/
def conclude? (propagator : Propagator) (network : Network) (work : Worklist) :
    Option (EdgeTable × Except Error Propagation) := do
  if !work.queue.isEmpty then
    some (work.table, .error (.rangeNotConverged propagator.maxSteps))
  else
    let found ← network.layers.toList.mapM (propagator.findAnomaly? work.table)
    match propagator.strict, found.reduceOption with
    | true, first :: _ =>
      some (work.table, .error (.rangeAnomaly first.name first.calibrated first.aggregated))
    | _, anomalies => some (work.table, .ok { steps := work.steps, anomalies })

/-- Propagates ranges until nothing changes. -/
def propagate? (propagator : Propagator) (network : Network) (table : EdgeTable) :
    Option (EdgeTable × Except Error Propagation) := do
  if table.size < network.size then some (table, .error (.unknownLayer table.size))
  else
    match ← network.order? with
    | .error error => some (table, .error (.graph error))
    | .ok order =>
      let successors ← network.gather? (·.predecessors) Network.addNew
      let work ← Worklist.drain? propagator.alters network successors propagator.maxSteps
        { queue := order, queued := Array.replicate network.size true, table }
      propagator.conclude? network work

variable {network : Network}

/-- Anomalies are looked for in the entries of the layers of the network. -/
theorem conclude?_eq (hformed : network.WellFormed) (propagator : Propagator) {work : Worklist}
    (h : work.InRange network) :
    propagator.conclude? network work = some (propagator.conclude network work) := by
  have hfound : network.layers.toList.mapM (propagator.findAnomaly? work.table) =
      some (network.layers.toList.map (propagator.anomaly? work.table)) :=
    mapM_eq_some fun layer hlayer =>
      if_pos ((Network.lt_size (hformed.layer?_id hlayer)).trans_le h.size_le)
  have hanomalies :
      (network.layers.toList.map (propagator.anomaly? work.table)).reduceOption =
        network.layers.toList.filterMap (propagator.anomaly? work.table) := by
    simp [List.reduceOption, List.filterMap_map]
  unfold conclude? conclude
  split
  · rfl
  · rw [hfound]
    simp only [Option.bind_eq_bind, Option.bind_some, hanomalies]
    cases propagator.strict <;>
      cases network.layers.toList.filterMap (propagator.anomaly? work.table) <;> rfl

/-- A propagation through a network that was built makes no access out of range, whatever the
table. -/
theorem propagate?_eq (hbuilt : network.Built) (propagator : Propagator) (table : EdgeTable) :
    propagator.propagate? network table = some (propagator.propagate network table) := by
  unfold propagate?
  by_cases hshort : table.size < network.size
  · unfold propagate
    rw [if_pos hshort, if_pos hshort]
  have hformed := hbuilt.wellFormed
  have hsize := Nat.le_of_not_lt hshort
  obtain ⟨hdrained, hend⟩ := Worklist.InRange.drain? hformed propagator.alters propagator.maxSteps
    ⟨startWork_tidy network table, hsize⟩
  rw [if_neg hshort, propagate_eq hbuilt hsize, hformed.order?_eq, hformed.topologicalOrder_eq]
  simp only [Option.bind_eq_bind, Option.bind_some, hformed.successorLists?_eq]
  exact (congrArg (· >>= _) hdrained).trans (conclude?_eq hformed propagator hend)

end Propagator

end LayerQuant
