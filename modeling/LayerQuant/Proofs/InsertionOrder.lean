import Mathlib
import LayerQuant.Proofs.NetworkEdits
import LayerQuant.Proofs.TopologicalOrder

/-!
# No edge is served twice

A counter of a placement holds the number of forward edges into a layer that are still open, an edge
that is repeated once for each time. `serve?` refuses to count an edge when none is open, where the
counter would go below zero. The run refuses nothing (`AtLayer.run?`): every layer is served once
for each of its open edges, and no layer is ready once all are placed. Read
`topologicalOrder_of_built` first.
-/

namespace LayerQuant

namespace Placement

/-- Counts one forward edge into `id` as served, if one is open. -/
def serve? (placement : Placement) (id : Nat) : Option Placement :=
  if 0 < placement.left id then some (placement.serve id) else none

/-- Places the first ready layer, unless one of its consumers has no open edge left for it. -/
def step? (network : Network) (placement : Placement) : Option Placement :=
  match placement.ready with
  | [] => some placement
  | id :: rest =>
    (network.consumers id).foldlM serve?
      { placement with placed := placement.placed ++ [id], ready := rest }

/-- Places up to the given number of layers, as long as no counter would go below zero. -/
def run? (network : Network) : Nat → Placement → Option Placement
  | 0, placement => some placement
  | count + 1, placement => placement.step? network >>= run? network count

variable {network : Network} {placement : Placement} {k : Nat}

/-- Edges that are all open are served without a refusal. -/
theorem foldlM_serve? (edges : List Nat)
    (hmem : ∀ id ∈ edges, id < placement.pending.size)
    (hleft : ∀ id, edges.count id ≤ placement.left id) :
    edges.foldlM serve? placement = some (edges.foldl serve placement) := by
  induction edges generalizing placement with
  | nil => rfl
  | cons edge rest ih =>
      have hbound := hmem edge List.mem_cons_self
      have hopen : 0 < placement.left edge :=
        (List.count_pos_iff.2 List.mem_cons_self).trans_le (hleft edge)
      have hserved : placement.serve? edge = some (placement.serve edge) := if_pos hopen
      rw [List.foldlM_cons, hserved, List.foldl_cons]
      refine ih (fun id hid => ?_) (fun id => ?_)
      · have hsize : (placement.serve edge).pending.size = placement.pending.size := by
          simp [serve]
        rw [hsize]
        exact hmem id (List.mem_cons_of_mem _ hid)
      · have hcount := hleft id
        rw [List.count_cons] at hcount
        rw [left_serve hbound]
        by_cases heq : id = edge
        · rw [if_pos heq]
          simp only [heq, BEq.rfl, if_true] at hcount ⊢
          omega
        · rw [if_neg heq]
          omega

/-- Before all layers are placed, a step is not refused. -/
theorem AtLayer.step? (hformed : network.WellFormed) (h : AtLayer network k placement)
    (hk : k < network.size) : placement.step? network = some (placement.step network) := by
  obtain ⟨rest, hready⟩ := h.ready_eq hformed hk
  unfold Placement.step? Placement.step
  rw [hready]
  refine foldlM_serve? _ (fun id hid => ?_) (fun id => h.count_consumers_le hformed id)
  exact (hformed.mem_consumers hid).2.trans_eq h.ready.size_eq.symm

/-- Once all layers are placed, none is ready. -/
theorem AtLayer.ready_eq_nil (h : AtLayer network network.size placement) :
    placement.ready = [] := by
  refine List.eq_nil_iff_forall_not_mem.2 fun id hid => ?_
  obtain ⟨hplaced, hlt, _⟩ := (h.ready.mem_iff id).1 hid
  omega

/-- A run that has nothing to place stays where it is. -/
theorem run?_of_ready_nil (count : Nat) (h : placement.ready = []) :
    run? network count placement = some placement := by
  induction count with
  | zero => rfl
  | succ count ih =>
      have hstep : placement.step? network = some placement := by
        unfold step?
        rw [h]
      rw [run?, hstep]
      exact ih

/-- From any layer on, a run that goes past the last layer places the layers that are left and is
refused nothing. -/
theorem AtLayer.run? (hformed : network.WellFormed) (count more : Nat)
    (h : AtLayer network k placement) (hcount : k + count = network.size) :
    Placement.run? network (count + more) placement = some (placement.run network count) := by
  induction count generalizing k placement with
  | zero =>
      obtain rfl : k = network.size := hcount
      rw [Nat.zero_add]
      exact run?_of_ready_nil more h.ready_eq_nil
  | succ count ih =>
      have hk : k < network.size := by omega
      rw [Nat.add_right_comm, Placement.run?, h.step? hformed hk]
      exact ih (h.step hformed hk) (by omega)

end Placement

namespace Network

variable {network : Network}

/-- The topological order of a network that was built is the order in which its layers were added,
whatever edges are repeated and whatever the recurrent ones are. The run that finds it never takes a
counter below zero, and however far it is let run, it ends when every layer is placed and none is
ready. In this order every layer comes after all its forward inputs. -/
theorem topologicalOrder_of_built (hbuilt : network.Built) :
    network.topologicalOrder = .ok (List.range network.size) ∧
      (∀ more, Placement.run? network (network.size + more) (.start network) =
        some (.run network network.size (.start network))) ∧
      (Placement.run network network.size (.start network)).ready = [] ∧
      ∀ before id after layer, List.range network.size = before ++ id :: after →
        network.layer? id = some layer → ∀ p ∈ layer.inputs, p ∈ before := by
  have hformed := hbuilt.wellFormed
  have hstart := Placement.AtLayer.start network
  have hend := hstart.run hformed network.size (Nat.zero_add _).le
  rw [Nat.zero_add] at hend
  refine ⟨hformed.topologicalOrder_eq, fun more => ?_, hend.ready_eq_nil, ?_⟩
  · exact hstart.run? hformed network.size more (Nat.zero_add _)
  · intro before id after layer horder hlayer p hp
    have hlt := hformed.inputs_lt hlayer p hp
    have hmem : p ∈ before ++ id :: after := by
      rw [← horder]
      exact List.mem_range.2 (hlt.trans (lt_size hlayer))
    -- The order ascends, so the layers after this one have greater ids.
    have hascending : (before ++ id :: after).Pairwise (· < ·) := horder ▸ List.pairwise_lt_range
    have hlater := (List.pairwise_cons.1 (List.pairwise_append.1 hascending).2.1).1
    rcases List.mem_append.1 hmem with hbefore | hrest
    · exact hbefore
    · rcases List.mem_cons.1 hrest with rfl | hafter
      · omega
      · have := hlater p hafter
        omega

/-- The sum reads the input twice and itself one step later. -/
theorem summed_topologicalOrder :
    (afterCalls {} summedCalls).Built ∧
      (Placement.start (afterCalls {} summedCalls)).pending = #[0, 2] ∧
      (afterCalls {} summedCalls).topologicalOrder = .ok [0, 1] := by
  have hbuilt : (afterCalls {} summedCalls).Built := Built.empty.afterCalls summedCalls
  refine ⟨hbuilt, by cbv, ?_⟩
  have hsize : (afterCalls {} summedCalls).size = 2 := by cbv
  rw [(topologicalOrder_of_built hbuilt).1, hsize]
  rfl

end Network

end LayerQuant
