import Mathlib
import LayerQuant.Proofs.Convergence

/-!
# Where raised ranges come from

However a propagation ends, it has raised aggregated ranges and done nothing else, and it has made
up no range: what a layer passes on at any time was passed on at the start by a layer connected to
it (`EdgeTable.Sourced`). A visit hands ranges on along edges only, in both directions
(`Sourced.visit`). Read `propagate_raises` first.
-/

namespace LayerQuant

namespace Network

/-- The first layer reads the second one, by a forward or a recurrent edge. -/
def Reads (network : Network) (id producer : Nat) : Prop :=
  ∃ layer, network.layer? id = some layer ∧ producer ∈ layer.predecessors

/-- Edges lead from one layer to the other, whichever way they point. -/
def Connected (network : Network) : Nat → Nat → Prop := Relation.EqvGen network.Reads

end Network

namespace EdgeTable

variable {alters : Layer → Bool} {network : Network} {layer : Layer} {start table : EdgeTable}
  {id : Nat}

/-- Every range that a layer passes on was passed on in `start` by a layer connected to it. -/
def Sourced (network : Network) (start table : EdgeTable) : Prop :=
  ∀ id, ∀ range ∈ (table.get id).circulating,
    ∃ source, network.Connected id source ∧ range ∈ (start.get source).circulating

theorem Sourced.refl (network : Network) (start : EdgeTable) : start.Sourced network start :=
  fun id _ hrange => ⟨id, .refl id, hrange⟩

/-- A visit hands ranges on between the layer and its producers. -/
theorem Sourced.visit (hlayer : network.layer? layer.id = some layer)
    (h : start.Sourced network table) : start.Sourced network (table.visit alters layer).1 := by
  -- The layers that a visit looks at and writes to are all connected to the visited one.
  have hnear : ∀ id, (id = layer.id ∨ id ∈ layer.predecessors) →
      network.Connected layer.id id := by
    rintro id (rfl | hp)
    · exact .refl _
    · exact .rel _ _ ⟨layer, hlayer, hp⟩
  have hjoined : ∀ range, table.Joins alters layer range →
      ∃ source, network.Connected layer.id source ∧ range ∈ (start.get source).circulating := by
    intro range hjoins
    obtain ⟨id, hid, hmem⟩ := hjoins.mem_circulating
    obtain ⟨source, hsource, hstart⟩ := h id range hmem
    exact ⟨source, .trans _ _ _ (hnear id hid) hsource, hstart⟩
  refine visit_pointwise (R := fun id edges => ∀ range ∈ edges.circulating,
    ∃ source, network.Connected id source ∧ range ∈ (start.get source).circulating) h ?_ ?_
  · intro range hjoins edges hedges other hother
    rcases LayerEdges.mem_circulating_raise_input hother with rfl | hold
    · exact hjoined other hjoins
    · exact hedges other hold
  · intro range hjoins id hid edges hedges other hother
    rcases LayerEdges.mem_circulating_raise_output hother with rfl | hold
    · obtain ⟨source, hsource, hstart⟩ := hjoined other hjoins
      have hback : network.Connected id layer.id :=
        .symm _ _ (hnear id (hid.imp And.right And.right))
      exact ⟨source, .trans _ _ _ hback hsource, hstart⟩
    · exact hedges other hold

/-- A visit writes to layers of the network only. -/
theorem visit_beyond (hformed : network.WellFormed) (hlayer : network.layer? layer.id = some layer)
    (hid : network.size ≤ id) : (table.visit alters layer).1.get id = table.get id := by
  refine visit_frame fun hreported => ?_
  rcases mem_of_mem_visit hreported with rfl | hp
  · exact absurd (Network.lt_size hlayer) (Nat.not_lt.2 hid)
  · exact absurd (hformed.predecessor_lt hlayer hp) (Nat.not_lt.2 hid)

/-- The table was made from `start` by raising aggregated ranges of layers of the network to ranges
that connected layers had at the start. -/
structure RaisedFrom (network : Network) (start table : EdgeTable) : Prop where
  size_eq : table.size = start.size
  rest : ∀ id, (table.get id).withoutAggregated = (start.get id).withoutAggregated
  beyond : ∀ id, network.size ≤ id → table.get id = start.get id
  atMost : start.AtMost table
  sourced : ∀ id range, (table.get id).input.aggregated? = some range ∨
    (table.get id).output.aggregated? = some range →
      ∃ source, network.Connected id source ∧ range ∈ (start.get source).circulating

end EdgeTable

namespace Propagator

variable {propagator : Propagator} {network : Network} {table : EdgeTable}

/-- A propagation of numbers only raises aggregated ranges of the layers of the network, to ranges
that were there at the start, at a layer connected by edges. This holds also when the budget runs
out in between or an anomaly is an error. If the table has too few entries it stays as it is. -/
theorem propagate_raises (hbuilt : network.Built) (hnumbers : table.HasNumbers)
    (propagator : Propagator) :
    EdgeTable.RaisedFrom network table (propagator.propagate network table).1 ∧
      ∀ id, (propagator.propagate network table).2 = .error (.unknownLayer id) →
        (propagator.propagate network table).1 = table := by
  have hformed := hbuilt.wellFormed
  have hsourced : table.Sourced network (propagator.propagate network table).1 :=
    propagate_table (fun _ hmem _ hcurrent => hcurrent.visit (hformed.layer?_id hmem))
      (.refl network table)
  have hgrown : table.Grown (propagator.propagate network table).1 := propagate_grown hnumbers
  refine ⟨⟨size_propagate propagator network table, fun id => (hgrown id).rest, ?_,
    fun id => (hgrown id).atMost, fun id range hrange => ?_⟩, fun id hunknown => ?_⟩
  · exact propagate_table (Φ := fun current => ∀ id, network.size ≤ id →
      current.get id = table.get id) (fun layer hmem current hcurrent id hid =>
        (EdgeTable.visit_beyond hformed (hformed.layer?_id hmem) hid).trans (hcurrent id hid))
      fun _ _ => rfl
  · exact hsourced id range (LayerEdges.mem_circulating.2 (Or.inr hrange))
  · by_cases hsize : network.size ≤ table.size
    · rw [propagate_eq hbuilt hsize] at hunknown
      exact absurd hunknown (conclude_ne_unknownLayer _ id)
    · unfold propagate
      rw [if_pos (Nat.lt_of_not_le hsize)]

/-- Two visits into the propagation over `cycle`, the input has got the range of the second copy. -/
theorem cycle_raised_halfway :
    cycle.Built ∧ cycleTable.HasNumbers ∧
      ({ Config.propagator {} with maxSteps := 2 }.propagate cycle cycleTable).2 =
        .error (.rangeNotConverged 2) ∧
      (({ Config.propagator {} with maxSteps := 2 }.propagate cycle cycleTable).1.get
        0).output.aggregated? = some (.ofNat .single 5) ∧
      ∃ source, cycle.Connected 0 source ∧
        .ofNat .single 5 ∈ (cycleTable.get source).circulating := by
  have hnumbers : cycleTable.HasNumbers := EdgeTable.hasNumbers_of_forall (by decide +kernel)
  have hpropagate : { Config.propagator {} with maxSteps := 2 }.propagate cycle cycleTable =
      ({ Config.propagator {} with maxSteps := 2 } : Propagator).conclude cycle
        ((startWork cycle cycleTable).drain (·.kind.altersRange) cycle #[[1], [2], [1]] 2) := by
    have hsuccessors : cycle.successorLists = #[[1], [2], [1]] := by cbv
    rw [propagate_eq cycle_built (by decide), hsuccessors]
    rfl
  have hstopped : ({ Config.propagator {} with maxSteps := 2 }.propagate cycle cycleTable).2 =
      .error (.rangeNotConverged 2) := by
    rw [hpropagate]
    decide +kernel
  have hraised : (({ Config.propagator {} with maxSteps := 2 }.propagate cycle cycleTable).1.get
      0).output.aggregated? = some (.ofNat .single 5) := by
    rw [hpropagate]
    decide +kernel
  obtain ⟨hfrom, _⟩ := propagate_raises cycle_built hnumbers
    { Config.propagator {} with maxSteps := 2 }
  exact ⟨cycle_built, hnumbers, hstopped, hraised, hfrom.sourced 0 _ (Or.inr hraised)⟩

end Propagator

end LayerQuant
