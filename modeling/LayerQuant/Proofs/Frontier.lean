import Mathlib
import LayerQuant.Proofs.Construction
import LayerQuant.Sweep.Basic

/-!
# The frontier of a cap

A cap on the output of a layer travels back over forward inputs, through layers that take over the
scale of their inputs, and stops at layers that choose their own scale and at graph inputs. `Traces`
says so as a relation, and `mem_frontier` that the search finds exactly these layers: its stack and
its visited layers close up (`frontierFrom_closed`), and it never runs out of pops, because each
layer is expanded once. The layers on the way count as reached in `CapReaches` (`traces_iff`).
-/

namespace LayerQuant

/-- A cap that arrives at the layer goes no further. -/
def Layer.stopsCaps (layer : Layer) : Bool := layer.isInput || layer.kind.canRescale

namespace Network

/-- The second layer is reached from the first one by going back through layers that let caps pass,
and stops them. -/
inductive Traces (network : Network) : Nat → Nat → Prop where
  | stop {id : Nat} {layer : Layer} :
      network.layer? id = some layer → layer.stopsCaps = true → Traces network id id
  | through {id p q : Nat} {layer : Layer} :
      network.layer? id = some layer → layer.stopsCaps = false → p ∈ layer.inputs →
      Traces network p q → Traces network id q

variable {network : Network} {id p q : Nat} {layer : Layer}

/-- A trace ends at a layer that stops caps. -/
theorem Traces.exists_layer (h : network.Traces p q) :
    ∃ layer, network.layer? q = some layer ∧ layer.stopsCaps = true := by
  induction h with
  | stop hlayer hstops => exact ⟨_, hlayer, hstops⟩
  | through _ _ _ _ ih => exact ih

/-- Traces go back in the order of the network. -/
theorem Traces.le (hformed : network.WellFormed) (h : network.Traces p q) : q ≤ p := by
  induction h with
  | stop => exact le_rfl
  | through hlayer _ hp _ ih => exact ih.trans (hformed.inputs_lt hlayer _ hp).le

/-- What one pop of the search does. -/
theorem frontierFrom_cons (pops : Nat) (stack visited : List Nat) :
    network.frontierFrom (pops + 1) (id :: stack) visited =
      if id ∈ visited then network.frontierFrom pops stack visited
      else
        match network.layer? id with
        | none => network.frontierFrom pops stack (id :: visited)
        | some layer =>
          if layer.stopsCaps then id :: network.frontierFrom pops stack (id :: visited)
          else network.frontierFrom pops (layer.inputs.reverse ++ stack) (id :: visited) :=
  rfl

/-- Whatever the search finds is traced from the stack. -/
theorem frontierFrom_traces {pops : Nat} {stack visited : List Nat}
    (h : q ∈ network.frontierFrom pops stack visited) : ∃ p ∈ stack, network.Traces p q := by
  induction pops generalizing stack visited with
  | zero => simp [frontierFrom] at h
  | succ pops ih =>
      cases stack with
      | nil => simp [frontierFrom] at h
      | cons id stack =>
          have hlater : (∃ p ∈ stack, network.Traces p q) →
              ∃ p ∈ id :: stack, network.Traces p q := by
            rintro ⟨p, hp, htraces⟩
            exact ⟨p, List.mem_cons_of_mem _ hp, htraces⟩
          rw [frontierFrom_cons] at h
          split at h
          · exact hlater (ih h)
          · split at h
            · exact hlater (ih h)
            · rename_i layer hlayer
              split at h
              · rename_i hstops
                rcases List.mem_cons.1 h with rfl | h
                · exact ⟨q, List.mem_cons_self, .stop hlayer hstops⟩
                · exact hlater (ih h)
              · rename_i hpasses
                obtain ⟨p, hp, htraces⟩ := ih h
                rcases List.mem_append.1 hp with hp | hp
                · exact ⟨id, List.mem_cons_self, .through hlayer (by simpa using hpasses)
                    (List.mem_reverse.1 hp) htraces⟩
                · exact hlater ⟨p, hp, htraces⟩

/-- The layers that a cap reaches are those that stop caps. -/
theorem stopsCaps_of_mem_frontier (hfrontier : q ∈ network.frontier p)
    (hlayer : network.layer? q = some layer) : layer.stopsCaps = true := by
  obtain ⟨_, _, htraces⟩ := frontierFrom_traces hfrontier
  obtain ⟨stopping, hstopping, hstops⟩ := htraces.exists_layer
  rwa [← Option.some.inj (hlayer.symm.trans hstopping)] at hstops

/-- The number of forward edges into a layer, zero once it is visited. -/
def openInputs (visited : List Nat) (layer : Layer) : Nat :=
  if layer.id ∈ visited then 0 else layer.inputs.length

/-- The number of forward edges into layers that are not visited yet. -/
def openEdges (network : Network) (visited : List Nat) : Nat :=
  (network.layers.toList.map (openInputs visited)).sum

theorem openInputs_cons_le (id : Nat) (visited : List Nat) (layer : Layer) :
    openInputs (id :: visited) layer ≤ openInputs visited layer := by
  unfold openInputs
  by_cases hlayer : layer.id ∈ visited
  · simp [hlayer]
  · simp only [hlayer, if_false]
    split <;> omega

theorem openEdges_cons_le (network : Network) (id : Nat) (visited : List Nat) :
    network.openEdges (id :: visited) ≤ network.openEdges visited :=
  List.sum_le_sum fun layer _ => openInputs_cons_le id visited layer

/-- Visiting a layer closes its edges. -/
theorem openEdges_visit (network : Network) (visited : List Nat)
    (hmem : layer ∈ network.layers.toList) (hnew : layer.id ∉ visited) :
    network.openEdges (layer.id :: visited) + layer.inputs.length ≤
      network.openEdges visited := by
  have hperm := List.perm_cons_erase hmem
  have hclosed : openInputs (layer.id :: visited) layer = 0 := by simp [openInputs]
  have hopen : openInputs visited layer = layer.inputs.length := by simp [openInputs, hnew]
  have hrest : ((network.layers.toList.erase layer).map (openInputs (layer.id :: visited))).sum ≤
      ((network.layers.toList.erase layer).map (openInputs visited)).sum :=
    List.sum_le_sum fun other _ => openInputs_cons_le layer.id visited other
  unfold openEdges
  rw [(hperm.map _).sum_eq, (hperm.map _).sum_eq]
  simp only [List.map_cons, List.sum_cons, hclosed, hopen]
  omega

theorem edgeCount_eq : network.edgeCount = network.openEdges [] := by
  have hopen : openInputs [] = fun layer => layer.inputs.length := by
    funext layer
    simp [openInputs]
  simp [edgeCount, openEdges, hopen, List.length_flatMap]

/-- A set of layers that a search with this stack and these visited layers has closed up when it
ends with the result `found`. The set holds all of them, and of the layers that the search still
visits, those that stop caps are found and the others have their inputs in the set. -/
structure ClosesUp (network : Network) (stack visited found : List Nat) (closed : Nat → Prop) :
    Prop where
  old : ∀ id ∈ visited, closed id
  waiting : ∀ id ∈ stack, closed id
  settled : ∀ {id layer}, closed id → id ∉ visited → network.layer? id = some layer →
    (layer.stopsCaps = true → id ∈ found) ∧
      (layer.stopsCaps = false → ∀ p ∈ layer.inputs, closed p)

/-- Without a stack nothing is left to visit. -/
theorem closesUp_nil (network : Network) (visited found : List Nat) :
    network.ClosesUp [] visited found (· ∈ visited) where
  old := fun _ h => h
  waiting := by simp
  settled := fun hclosed hnew => absurd hclosed hnew

/-- A layer that is visited already is passed over. -/
theorem ClosesUp.skip {stack visited found : List Nat} {closed : Nat → Prop}
    (h : network.ClosesUp stack visited found closed) (hid : id ∈ visited) :
    network.ClosesUp (id :: stack) visited found closed where
  old := h.old
  waiting := by
    intro other hother
    rcases List.mem_cons.1 hother with rfl | hother
    · exact h.old _ hid
    · exact h.waiting _ hother
  settled := h.settled

/-- A layer is settled by the pop that visits it, and the others by the rest of the search. -/
theorem ClosesUp.visit {stack next visited found rest : List Nat} {closed : Nat → Prop}
    (h : network.ClosesUp next (id :: visited) rest closed) (hstack : stack ⊆ next)
    (hrest : rest ⊆ found)
    (hid : ∀ layer, network.layer? id = some layer →
      (layer.stopsCaps = true → id ∈ found) ∧ (layer.stopsCaps = false → layer.inputs ⊆ next)) :
    network.ClosesUp (id :: stack) visited found closed where
  old := fun other hother => h.old other (List.mem_cons_of_mem _ hother)
  waiting := by
    intro other hother
    rcases List.mem_cons.1 hother with rfl | hother
    · exact h.old _ List.mem_cons_self
    · exact h.waiting _ (hstack hother)
  settled := by
    intro other layer hclosed hnew hlayer
    by_cases heq : other = id
    · subst heq
      obtain ⟨hstops, hpasses⟩ := hid layer hlayer
      exact ⟨hstops, fun hpass p hp => h.waiting p (hpasses hpass hp)⟩
    · obtain ⟨hfound, hinputs⟩ := h.settled hclosed (by simp [heq, hnew]) hlayer
      exact ⟨fun hstops => hrest (hfound hstops), hinputs⟩

/-- With enough pops a search closes up. -/
theorem frontierFrom_closed (hformed : network.WellFormed) (pops : Nat) (stack visited : List Nat)
    (hpops : stack.length + network.openEdges visited ≤ pops) :
    ∃ closed, network.ClosesUp stack visited (network.frontierFrom pops stack visited) closed := by
  induction pops generalizing stack visited with
  | zero =>
      obtain rfl : stack = [] := List.length_eq_zero_iff.1 (by omega)
      exact ⟨_, network.closesUp_nil visited _⟩
  | succ pops ih =>
      cases stack with
      | nil => exact ⟨_, network.closesUp_nil visited _⟩
      | cons id stack =>
          rw [List.length_cons] at hpops
          rw [frontierFrom_cons]
          have hshrinks := network.openEdges_cons_le id visited
          split
          · rename_i hvisited
            obtain ⟨closed, hcloses⟩ := ih stack visited (by omega)
            exact ⟨closed, hcloses.skip hvisited⟩
          · rename_i hnew
            split
            · rename_i hnone
              obtain ⟨closed, hcloses⟩ := ih stack (id :: visited) (by omega)
              refine ⟨closed, hcloses.visit (List.Subset.refl _) (List.Subset.refl _) ?_⟩
              intro layer hlayer
              rw [hnone] at hlayer
              cases hlayer
            · rename_i layer hlayer
              have hid := hformed.id_eq hlayer
              split
              · rename_i hstops
                obtain ⟨closed, hcloses⟩ := ih stack (id :: visited) (by omega)
                refine ⟨closed, hcloses.visit (List.Subset.refl _) (List.subset_cons_self _ _) ?_⟩
                intro layer' hlayer'
                obtain rfl := Option.some.inj (hlayer.symm.trans hlayer')
                exact ⟨fun _ => List.mem_cons_self, fun hpasses => by simp [hstops] at hpasses⟩
              · rename_i hpasses
                -- The inputs that go onto the stack are paid for by the edges that close.
                have hvisit := network.openEdges_visit visited (layer?_mem hlayer) (by rwa [hid])
                rw [hid] at hvisit
                obtain ⟨closed, hcloses⟩ := ih (layer.inputs.reverse ++ stack) (id :: visited)
                  (by simp only [List.length_append, List.length_reverse]; omega)
                refine ⟨closed, hcloses.visit (List.subset_append_right _ _)
                  (List.Subset.refl _) ?_⟩
                intro layer' hlayer'
                obtain rfl := Option.some.inj (hlayer.symm.trans hlayer')
                refine ⟨fun hstops => absurd hstops hpasses, fun _ p hp => ?_⟩
                exact List.mem_append_left _ (List.mem_reverse.2 hp)

/-- The frontier of a layer holds exactly the layers traced from it. -/
theorem WellFormed.mem_frontier (hformed : network.WellFormed) :
    q ∈ network.frontier p ↔ network.Traces p q := by
  constructor
  · intro h
    obtain ⟨start, hstart, htraces⟩ := frontierFrom_traces h
    obtain rfl := List.mem_singleton.1 hstart
    exact htraces
  · intro h
    obtain ⟨closed, hcloses⟩ := frontierFrom_closed hformed (network.edgeCount + 1) [p] []
      (by rw [edgeCount_eq, List.length_singleton]; omega)
    obtain ⟨_, hstart, hsettled⟩ := hcloses
    have hp : closed p := hstart p List.mem_cons_self
    show q ∈ network.frontierFrom (network.edgeCount + 1) [p] []
    generalize network.frontierFrom (network.edgeCount + 1) [p] [] = found at hsettled
    clear hstart
    induction h with
    | stop hlayer hstops => exact (hsettled hp List.not_mem_nil hlayer).1 hstops
    | through hlayer hpasses hmem _ ih =>
        exact ih ((hsettled hp List.not_mem_nil hlayer).2 hpasses _ hmem)

/-! ## The layers on the way -/

/-- A cap on the first layer is passed on to the second one: the first layer is no graph input, does
not choose its own scale, and reads the second one. -/
def PassesCap (network : Network) (p q : Nat) : Prop :=
  ∃ layer, network.layer? p = some layer ∧ layer.isInput = false ∧
    layer.kind.canRescale = false ∧ q ∈ layer.inputs

/-- A cap on the first layer is passed on to the second one in any number of steps. -/
def CapReaches (network : Network) : Nat → Nat → Prop := Relation.ReflTransGen network.PassesCap

/-- The layer is a graph input. -/
def IsSource (network : Network) (id : Nat) : Prop :=
  ∃ layer, network.layer? id = some layer ∧ layer.isInput = true

/-- The layer chooses its own output scale. -/
def Rescales (network : Network) (id : Nat) : Prop :=
  ∃ layer, network.layer? id = some layer ∧ layer.kind.canRescale = true

/-- Caps stop at graph inputs and at layers that choose their own scale. -/
theorem exists_stopsCaps : (∃ layer, network.layer? id = some layer ∧ layer.stopsCaps = true) ↔
    network.IsSource id ∨ network.Rescales id := by
  simp only [Layer.stopsCaps, IsSource, Rescales, Bool.or_eq_true, and_or_left, exists_or]

/-- A trace leads through layers that pass caps on to one at which they stop. -/
theorem traces_iff : network.Traces p q ↔
    network.CapReaches p q ∧ (network.IsSource q ∨ network.Rescales q) := by
  rw [← exists_stopsCaps]
  constructor
  · intro h
    refine ⟨?_, h.exists_layer⟩
    induction h with
    | stop => exact .refl
    | through hlayer hpasses hp _ ih =>
        obtain ⟨hinput, hrescales⟩ := Bool.or_eq_false_iff.1 hpasses
        exact .head ⟨_, hlayer, hinput, hrescales, hp⟩ ih
  · rintro ⟨hreaches, layer, hlayer, hstops⟩
    induction hreaches using Relation.ReflTransGen.head_induction_on with
    | refl => exact .stop hlayer hstops
    | head hpasses _ ih =>
        obtain ⟨passing, hpassing, hinput, hrescales, hp⟩ := hpasses
        exact .through hpassing (Bool.or_eq_false_iff.2 ⟨hinput, hrescales⟩) hp ih

end Network

end LayerQuant
