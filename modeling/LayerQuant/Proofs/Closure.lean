import Mathlib
import LayerQuant.Proofs.TopologicalOrder
import LayerQuant.Proofs.Visit

/-!
# A finished propagation is closed

In a closed table no layer has a range to pass on: the largest range that meets at a layer has
reached its input, its output if the layer keeps ranges, and the outputs of its producers. The queue
covers the layers that a visit could still change (`Worklist.Covers`), each step keeps it so
(`Covers.step`), and an empty queue leaves every layer quiet. Read `propagate_closed` first.
-/

namespace LayerQuant

namespace EdgeTable

/-- The ranges that meet at a layer: those known at the outputs of its producers, and the aggregated
ranges of its own tensors if it keeps the range of its inputs. -/
def meeting (alters : Layer → Bool) (table : EdgeTable) (layer : Layer) : List Single :=
  (layer.predecessors.filterMap fun id => (table.get id).output.knownRange?) ++
    if alters layer then []
    else
      [(table.get layer.id).input.aggregated?, (table.get layer.id).output.aggregated?].reduceOption

end EdgeTable

namespace Edge

/-- The aggregated range is known and at least the given one. -/
def Reaches (edge : Edge) (range : Single) : Prop :=
  ∃ known, edge.aggregated? = some known ∧ range ≤ known

/-- The aggregated range is known and the same number as the given one. -/
def Holds (edge : Edge) (range : Single) : Prop :=
  ∃ known, edge.aggregated? = some known ∧ known.sameNumber range = true

variable {edge : Edge} {range known : Single}

/-- A range that is a number is part of the known range. -/
theorem range_le_known (h : edge.range? = some range) (hnumber : range.isNaN = false) :
    ∃ whole, edge.knownRange? = some whole ∧ range ≤ whole := by
  unfold knownRange?
  rw [h]
  cases edge.aggregated? with
  | none => exact ⟨range, rfl, Binary.le_refl_of_number hnumber⟩
  | some aggregated => exact ⟨range.maximum aggregated, rfl, Binary.le_maximum_left hnumber⟩

/-- An aggregated range that is a number is part of the known range. -/
theorem aggregated_le_known (h : edge.aggregated? = some known) (hnumber : known.isNaN = false) :
    ∃ whole, edge.knownRange? = some whole ∧ known ≤ whole := by
  unfold knownRange?
  rw [h]
  cases edge.range? with
  | none => exact ⟨known, rfl, Binary.le_refl_of_number hnumber⟩
  | some range => exact ⟨range.maximum known, rfl, Binary.le_maximum_right hnumber⟩

end Edge

namespace EdgeTable

/-- The ranges that meet at a layer have spread: if a producer has a known range, the largest range
that meets has reached the input of the layer, is the range of both its tensors if the layer keeps
ranges, and is the range of the producers' outputs if it is positive. -/
structure ClosedAt (alters : Layer → Bool) (table : EdgeTable) (layer : Layer) (largest : Single) :
    Prop where
  input : (table.get layer.id).input.Reaches largest
  kept : alters layer = false →
    (table.get layer.id).input.Holds largest ∧ (table.get layer.id).output.Holds largest
  producers : .zero < largest → ∀ p ∈ layer.predecessors, (table.get p).output.Holds largest

/-- Every layer with a known range among its producers is closed under the largest range that meets
at it. -/
def Closed (alters : Layer → Bool) (network : Network) (table : EdgeTable) : Prop :=
  ∀ layer ∈ network.layers.toList,
    (∃ p ∈ layer.predecessors, (table.get p).output.knownRange?.isSome) →
      ∀ largest, Binary.IsLargest largest (table.meeting alters layer) →
        ClosedAt alters table layer largest

variable {alters : Layer → Bool} {layer : Layer} {table : EdgeTable} {range largest : Single}

/-- A visit joins the largest range that meets at the layer. -/
theorem Joins.isLargest (h : table.Joins alters layer range) :
    Binary.IsLargest range (table.meeting alters layer) := by
  obtain ⟨arriving, harriving, rfl⟩ := h
  have hproducers := Binary.isLargest_of_largest? harriving
  unfold meeting joinedRange
  cases alters layer with
  | true => simpa using hproducers
  | false => exact hproducers.append (Binary.isLargest_foldl _ arriving)

/-- A layer with a known range among its producers has a range to join. -/
theorem exists_joins (alters : Layer → Bool)
    (h : ∃ p ∈ layer.predecessors, (table.get p).output.knownRange?.isSome) :
    ∃ range, table.Joins alters layer range := by
  cases harriving : table.arrivingRange? layer with
  | none =>
      obtain ⟨p, hp, hknown⟩ := h
      obtain ⟨known, hknown⟩ := Option.isSome_iff_exists.1 hknown
      have hmem : known ∈ layer.predecessors.filterMap
          fun id => (table.get id).output.knownRange? := List.mem_filterMap.2 ⟨p, hp, hknown⟩
      rw [Binary.largest?_eq_none.1 harriving] at hmem
      cases hmem
  | some arriving => exact ⟨_, arriving, harriving, rfl⟩

/-- A quiet layer is closed. -/
theorem Quiet.closedAt (h : table.Quiet alters layer)
    (hknown : ∃ p ∈ layer.predecessors, (table.get p).output.knownRange?.isSome)
    (hlargest : Binary.IsLargest largest (table.meeting alters layer)) :
    ClosedAt alters table layer largest := by
  obtain ⟨range, hjoins⟩ := exists_joins alters hknown
  obtain ⟨hinput, houtput, hproducers⟩ := h range hjoins
  simp only [Edge.raises_eq_false] at hinput houtput hproducers
  -- The joined range is a number, so the largest range is the same number.
  have hnumber : range.isNaN = false := by
    obtain ⟨known, _, hle⟩ := hinput
    exact Binary.number_of_le_left hle
  have hrange : range ≤ largest := hlargest.le hjoins.isLargest.1 hnumber
  have hback : largest ≤ range :=
    hjoins.isLargest.le hlargest.1 (Binary.number_of_le_right hrange)
  have hholds : ∀ edge : Edge, (∃ known, edge.aggregated? = some known ∧ range ≤ known) →
      (∀ known, edge.aggregated? = some known → known.isNaN = false →
        ∃ whole ∈ table.meeting alters layer, known ≤ whole) → edge.Holds largest := by
    rintro edge ⟨known, hedge, hle⟩ hmeets
    obtain ⟨whole, hmem, hwhole⟩ := hmeets known hedge (Binary.number_of_le_right hle)
    refine ⟨known, hedge, Binary.sameNumber_iff.2 ⟨?_, Binary.le_trans' hback hle⟩⟩
    exact Binary.le_trans' hwhole (hlargest.le hmem (Binary.number_of_le_right hwhole))
  have hown : alters layer = false → ∀ known,
      (table.get layer.id).input.aggregated? = some known ∨
        (table.get layer.id).output.aggregated? = some known → known.isNaN = false →
      ∃ whole ∈ table.meeting alters layer, known ≤ whole := by
    intro halters known hedge hknown
    refine ⟨known, ?_, Binary.le_refl_of_number hknown⟩
    unfold meeting
    rcases hedge with hedge | hedge <;> simp [halters, hedge, List.reduceOption_mem_iff]
  refine ⟨?_, fun halters => ⟨?_, ?_⟩, fun hpositive p hp => ?_⟩
  · obtain ⟨known, hedge, hle⟩ := hinput
    exact ⟨known, hedge, Binary.le_trans' hback hle⟩
  · exact hholds _ hinput fun known hedge => hown halters known (Or.inl hedge)
  · exact hholds _ (houtput halters) fun known hedge => hown halters known (Or.inr hedge)
  · refine hholds _ (hproducers (Binary.lt_of_lt_of_le' hpositive hback) p hp)
      fun known hedge hnumber => ?_
    obtain ⟨whole, hwhole, hle⟩ := Edge.aggregated_le_known hedge hnumber
    exact ⟨whole, List.mem_append_left _ (List.mem_filterMap.2 ⟨p, hp, hwhole⟩), hle⟩

end EdgeTable

namespace Worklist

variable {alters : Layer → Bool} {network : Network} {work : Worklist} {id : Nat}

/-- There is a flag for each of `size` layers, and a layer whose flag is set is in the queue. -/
structure Flagged (size : Nat) (work : Worklist) : Prop where
  size_eq : work.queued.size = size
  mem_queue : ∀ id < size, work.queued.getD id true = true → id ∈ work.queue

/-- Queueing layers leaves the table alone. -/
theorem table_foldl_enqueue (ids : List Nat) (work : Worklist) :
    (ids.foldl Worklist.enqueue work).table = work.table := by
  induction ids generalizing work with
  | nil => rfl
  | cons id rest ih =>
      rw [List.foldl_cons, ih]
      unfold Worklist.enqueue
      split <;> rfl

/-- Appending a layer keeps the queue, and puts the layer into it. -/
theorem Flagged.enqueue {size : Nat} (h : Flagged size work) (id : Nat) :
    Flagged size (work.enqueue id) ∧ (∀ other ∈ work.queue, other ∈ (work.enqueue id).queue) ∧
      (id < size → id ∈ (work.enqueue id).queue) := by
  unfold Worklist.enqueue
  split
  · rename_i hflag
    exact ⟨h, fun _ hother => hother, fun hid => h.mem_queue id hid hflag⟩
  · refine ⟨⟨by simp [h.size_eq], fun other hother hflag => ?_⟩,
      fun _ hother => List.mem_append_left _ hother, fun _ => by simp⟩
    by_cases heq : other = id
    · simp [heq]
    · refine List.mem_append_left _ (h.mem_queue other hother ?_)
      exact (getD_set_of_ne heq true true).symm.trans hflag

/-- Appending several layers keeps the queue, and puts them into it. -/
theorem Flagged.foldl_enqueue {size : Nat} (ids : List Nat) (h : Flagged size work) :
    Flagged size (ids.foldl Worklist.enqueue work) ∧
      (∀ other ∈ work.queue, other ∈ (ids.foldl Worklist.enqueue work).queue) ∧
      (∀ id ∈ ids, id < size → id ∈ (ids.foldl Worklist.enqueue work).queue) := by
  induction ids generalizing work with
  | nil => exact ⟨h, fun _ hother => hother, by simp⟩
  | cons first rest ih =>
      obtain ⟨hflagged, hkept, hfirst⟩ := h.enqueue first
      obtain ⟨hflagged', hkept', hrest⟩ := ih hflagged
      refine ⟨hflagged', fun other hother => hkept' other (hkept other hother), ?_⟩
      intro id hid hsize
      rcases List.mem_cons.1 hid with rfl | hid
      · exact hkept' id (hfirst hsize)
      · exact hrest id hid hsize

/-- The first layer of the queue is taken out by clearing its flag. -/
theorem Flagged.take {size steps : Nat} {rest : List Nat} (h : Flagged size work)
    (hqueue : work.queue = id :: rest) (table : EdgeTable) :
    Flagged size { queue := rest, queued := work.queued.setIfInBounds id false, table, steps } := by
  refine ⟨by simp [h.size_eq], fun other hother hflag => ?_⟩
  have hne : other ≠ id := by
    rintro rfl
    have hbound : other < work.queued.size := by rw [h.size_eq]; exact hother
    simp [Array.getD_eq_getD_getElem?, hbound] at hflag
  have hmem := h.mem_queue other hother ((getD_set_of_ne hne false true).symm.trans hflag)
  rw [hqueue] at hmem
  exact (List.mem_cons.1 hmem).resolve_left hne

/-- Every layer that a visit could change is in the queue. -/
structure Covers (alters : Layer → Bool) (network : Network) (work : Worklist) : Prop where
  flagged : Flagged network.size work
  quiet : ∀ {id layer}, network.layer? id = some layer →
    id ∈ work.queue ∨ work.table.Quiet alters layer

/-- The visit that a step makes. -/
def stepVisit (alters : Layer → Bool) (network : Network) (work : Worklist) (id : Nat) :
    EdgeTable × List Nat :=
  match network.layer? id with
  | some layer => work.table.visit alters layer
  | none => (work.table, [])

theorem step_eq (successors : Array (List Nat)) (rest : List Nat) :
    work.step alters network successors id rest =
      ((work.stepVisit alters network id).2.flatMap
        fun id => id :: successors.getD id []).foldl Worklist.enqueue
        { queue := rest, queued := work.queued.setIfInBounds id false,
          table := (work.stepVisit alters network id).1, steps := work.steps + 1 } :=
  rfl

/-- A layer that reads another one is among the successors of that one. -/
theorem mem_successorLists (hformed : network.WellFormed) {p : Nat} {layer : Layer}
    (hlayer : network.layer? id = some layer) (hp : p ∈ layer.predecessors) :
    id ∈ network.successorLists.getD p [] := by
  have hlt := hformed.predecessor_lt hlayer hp
  have hmem : id ∈ network.successors p :=
    List.mem_map.2 ⟨layer, List.mem_filter.2 ⟨Network.layer?_mem hlayer, by simpa using hp⟩,
      hformed.id_eq hlayer⟩
  simpa [Network.successorLists, Array.getD_eq_getD_getElem?, hlt] using hmem

/-- A step leaves the entries of layers alone that its visit does not report. -/
theorem stepVisit_frame {p : Nat} (h : p ∉ (work.stepVisit alters network id).2) :
    (work.stepVisit alters network id).1.get p = work.table.get p := by
  unfold stepVisit at h ⊢
  cases hvisited : network.layer? id with
  | none => rfl
  | some visited =>
      simp only [hvisited] at h ⊢
      exact EdgeTable.visit_frame h

/-- After a step whose visit reports neither a layer nor its producers, the layer is quiet if it was
visited or quiet before. -/
theorem stepVisit_quiet (hformed : network.WellFormed) {other : Nat} {layer : Layer}
    (hlayer : network.layer? other = some layer)
    (hself : other ∉ (work.stepVisit alters network id).2)
    (hproducers : ∀ p ∈ layer.predecessors, p ∉ (work.stepVisit alters network id).2)
    (hbefore : other ≠ id → work.table.Quiet alters layer) :
    (work.stepVisit alters network id).1.Quiet alters layer := by
  have hid := hformed.id_eq hlayer
  suffices hquiet : work.table.Quiet alters layer from
    hquiet.congr (stepVisit_frame (by rwa [hid])) fun p hp => stepVisit_frame (hproducers p hp)
  by_cases heq : other = id
  · -- The visited layer reports itself or a producer, or nothing at all.
    subst heq
    have hnothing : (work.stepVisit alters network other).2 = [] := by
      refine List.eq_nil_iff_forall_not_mem.2 fun p hp => ?_
      have hfrom : p = layer.id ∨ p ∈ layer.predecessors := by
        unfold stepVisit at hp
        simp only [hlayer] at hp
        exact EdgeTable.mem_of_mem_visit hp
      rcases hfrom with rfl | hpred
      · rw [hid] at hp
        exact hself hp
      · exact hproducers p hpred hp
    unfold stepVisit at hnothing
    simp only [hlayer] at hnothing
    exact EdgeTable.quiet_of_visit hnothing
  · exact hbefore heq

/-- A step takes a layer from the queue and leaves every layer that is not quiet in it. -/
theorem Covers.step (hformed : network.WellFormed) {rest : List Nat}
    (hqueue : work.queue = id :: rest) (h : Covers alters network work) :
    Covers alters network (work.step alters network network.successorLists id rest) := by
  obtain ⟨hflagged, hkept, hnew⟩ :=
    (h.flagged.take hqueue (work.stepVisit alters network id).1).foldl_enqueue
      ((work.stepVisit alters network id).2.flatMap
        fun id => id :: network.successorLists.getD id [])
  rw [← step_eq] at hflagged hkept hnew
  refine ⟨hflagged, fun {other layer} hlayer => ?_⟩
  have hother : other < network.size := Network.lt_size hlayer
  by_cases hmem : other ∈ (work.step alters network network.successorLists id rest).queue
  · exact Or.inl hmem
  · right
    -- A layer outside the queue is no changed layer and reads none.
    have hself : other ∉ (work.stepVisit alters network id).2 := by
      intro hchanged
      exact hmem (hnew other (List.mem_flatMap.2 ⟨other, hchanged, List.mem_cons_self⟩) hother)
    have hproducers : ∀ p ∈ layer.predecessors, p ∉ (work.stepVisit alters network id).2 := by
      intro p hp hchanged
      have hreader := mem_successorLists hformed hlayer hp
      exact hmem (hnew other (List.mem_flatMap.2
        ⟨p, hchanged, List.mem_cons_of_mem _ hreader⟩) hother)
    rw [step_eq, table_foldl_enqueue]
    refine stepVisit_quiet hformed hlayer hself hproducers fun hne => ?_
    refine (h.quiet hlayer).resolve_left fun hqueued => ?_
    rw [hqueue] at hqueued
    exact hmem (hkept other ((List.mem_cons.1 hqueued).resolve_left hne))

/-- At the start every layer is in the queue. -/
theorem Covers.start (alters : Layer → Bool) (network : Network) (table : EdgeTable) :
    Covers alters network
      { queue := List.range network.size, queued := Array.replicate network.size true, table } :=
  ⟨⟨Array.size_replicate, fun _ hid _ => List.mem_range.2 hid⟩,
    fun hlayer => Or.inl (List.mem_range.2 (Network.lt_size hlayer))⟩

/-- With an empty queue every layer is quiet. -/
theorem Covers.quiet_of_nil (hformed : network.WellFormed) (h : Covers alters network work)
    (hempty : work.queue = []) :
    ∀ layer ∈ network.layers.toList, work.table.Quiet alters layer := by
  intro layer hmem
  have hquiet := h.quiet (hformed.layer?_id hmem)
  rw [hempty] at hquiet
  exact hquiet.resolve_left List.not_mem_nil

theorem Covers.drain (hformed : network.WellFormed) (visits : Nat)
    (h : Covers alters network work) :
    Covers alters network (work.drain alters network network.successorLists visits) := by
  induction visits generalizing work with
  | zero => exact h
  | succ visits ih =>
      unfold Worklist.drain
      split
      · exact h
      · rename_i hqueue
        exact ih (h.step hformed hqueue)

/-- What visits keep of the table, draining the queue keeps. -/
theorem drain_table {Φ : EdgeTable → Prop} (successors : Array (List Nat)) (visits : Nat)
    (hvisit : ∀ layer ∈ network.layers.toList, ∀ table, Φ table →
      Φ (table.visit alters layer).1) (h : Φ work.table) :
    Φ (work.drain alters network successors visits).table := by
  induction visits generalizing work with
  | zero => exact h
  | succ visits ih =>
      unfold Worklist.drain
      split
      · exact h
      · rename_i id rest _
        refine ih ?_
        rw [step_eq, table_foldl_enqueue]
        show Φ (work.stepVisit alters network id).1
        unfold stepVisit
        split
        · rename_i layer hlayer
          exact hvisit layer (Network.layer?_mem hlayer) _ h
        · exact h

end Worklist

namespace Propagator

variable {propagator : Propagator} {network : Network} {table : EdgeTable} {report : Propagation}

/-- What visits keep of the table, a propagation keeps, also one that fails. -/
theorem propagate_table {Φ : EdgeTable → Prop}
    (hvisit : ∀ layer ∈ network.layers.toList, ∀ table, Φ table →
      Φ (table.visit propagator.alters layer).1) (h : Φ table) :
    Φ (propagator.propagate network table).1 := by
  unfold propagate
  split
  · exact h
  · split
    · exact h
    · rename_i order _
      have hdrain : Φ (Worklist.drain propagator.alters network network.successorLists
          propagator.maxSteps
          { queue := order, queued := Array.replicate network.size true, table }).table :=
        Worklist.drain_table network.successorLists propagator.maxSteps hvisit h
      dsimp only
      split
      · exact hdrain
      · split <;> exact hdrain

/-- A propagation that succeeds leaves a closed table. -/
theorem propagate_closed (hbuilt : network.Built)
    (h : (propagator.propagate network table).2 = .ok report) :
    (propagator.propagate network table).1.Closed propagator.alters network := by
  have hformed := hbuilt.wellFormed
  have hcovers := (Worklist.Covers.start propagator.alters network table).drain hformed
    propagator.maxSteps
  unfold propagate at h ⊢
  rw [hformed.topologicalOrder_eq] at h ⊢
  dsimp only at h ⊢
  generalize Worklist.drain propagator.alters network network.successorLists propagator.maxSteps
    { queue := List.range network.size, queued := Array.replicate network.size true, table } =
    work at h hcovers ⊢
  split at h
  · cases h
  · rename_i hsize
    rw [if_neg hsize]
    split at h
    · cases h
    · rename_i hqueue
      rw [if_neg hqueue]
      have hempty : work.queue = [] := by simpa using hqueue
      have hclosed : work.table.Closed propagator.alters network := by
        intro layer hmem hknown largest hlargest
        exact (hcovers.quiet_of_nil hformed hempty layer hmem).closedAt hknown hlargest
      split <;> exact hclosed

end Propagator

end LayerQuant
