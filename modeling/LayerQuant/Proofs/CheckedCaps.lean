import Mathlib
import LayerQuant.Proofs.CheckedRanges
import LayerQuant.Proofs.SweepStep

/-!
# Caps with checked accesses

The checked form of the search that a cap on a layer starts. It keeps a stack and a flag for every
visited layer, caps each layer that it finds at once, and looks up in an array from where on the
order is unprocessed. Forward inputs have smaller ids than the layer that reads them, so from layers
that have an entry it meets only layers that have one, also if the table is shorter than the network
(`search?_eq`).
-/

namespace LayerQuant

/-! ## Positions in the order -/

/-- For each of the given number of layers its position in an order. -/
def positions? (size : Nat) (order : List Nat) : Option (Array Nat) :=
  order.zipIdx.foldlM (fun positions placed => write? positions placed.1 placed.2)
    (Array.replicate size 0)

/-- In the order of their ids layers have their ids as positions. -/
theorem positions?_range (size : Nat) :
    positions? size (List.range size) = some (Array.range size) := by
  have hprefix (count : Nat) (hcount : count ≤ size) :
      (List.range count).zipIdx.foldlM (fun positions placed => write? positions placed.1 placed.2)
          (Array.replicate size 0) =
        some (Array.ofFn fun id : Fin size => if id.val < count then id.val else 0) := by
    induction count with
    | zero => exact congrArg some (Array.ext (by simp) fun _ _ _ => by simp)
    | succ count ih =>
        rw [List.range_succ, List.zipIdx_append, List.foldlM_append, ih (by omega)]
        simp only [Option.bind_eq_bind, Option.bind_some, List.length_range, Nat.zero_add,
          List.zipIdx_singleton, List.foldlM_cons, List.foldlM_nil]
        rw [write?_eq (by simpa using hcount)]
        refine congrArg some (Array.ext (by simp) fun id hid _ => ?_)
        by_cases heq : count = id
        · simp [← heq]
        · have hiff : id ≤ count ↔ id < count := by omega
          rw [Array.getElem_setIfInBounds_ne (by simpa using hid) heq, Array.getElem_ofFn]
          simp [hiff]
  rw [positions?, hprefix size le_rfl]
  refine congrArg some (Array.ext (by simp) fun id hid _ => ?_)
  simp

namespace Sweep

/-- The output scale of a layer in the table, if the layer has an entry. -/
def outputScale? (sweep : Sweep) (id : Nat) : Option Single :=
  (sweep.table.entry? id).map (·.output.scale)

/-- A scale under the bound of a layer. -/
def capped? (sweep : Sweep) (id : Nat) (scale : Single) : Option Single := do
  let cap? ← sweep.caps[id]?
  some
    (match cap? with
      | some cap => scale.minimum cap
      | none => scale)

/-- The arrays of a sweep have a place for each of `size` layers, and the table has entries for the
first `entries` ones. -/
structure Indexed (size entries : Nat) (sweep : Sweep) : Prop where
  processed_size : sweep.processed.size = size
  caps_size : sweep.caps.size = size
  table_size : sweep.table.size = entries

variable {sweep : Sweep} {size entries id : Nat}

theorem outputScale?_eq (h : id < sweep.table.size) :
    sweep.outputScale? id = some (sweep.outputScale id) := by
  unfold outputScale?
  rw [EdgeTable.entry?_eq h]
  rfl

theorem capped?_eq (h : id < sweep.caps.size) (scale : Single) :
    sweep.capped? id scale = some (sweep.capped id scale) := by
  unfold capped? capped cap?
  rw [getElem?_eq_getD h none]
  rfl

theorem Indexed.start (network : Network) (table : EdgeTable) :
    (Sweep.start network table).Indexed network.size table.size :=
  ⟨Array.size_replicate, Array.size_replicate, rfl⟩

theorem Indexed.noteConflict (h : sweep.Indexed size entries) (conflict : ScaleConflict) :
    (sweep.noteConflict conflict).Indexed size entries := by
  obtain ⟨⟨noted, _, heq⟩, _⟩ := sweep.noted_noteConflict conflict
  rw [heq]
  exact ⟨h.processed_size, h.caps_size, h.table_size⟩

theorem Indexed.tighten (h : sweep.Indexed size entries) (ids : List Nat) (id : Nat)
    (cap : Single) : { sweep.unprocess ids with
      caps := sweep.caps.setIfInBounds id (some cap) }.Indexed size entries where
  processed_size := (size_unprocess sweep ids).trans h.processed_size
  caps_size := (Array.size_setIfInBounds ..).trans h.caps_size
  table_size := h.table_size

end Sweep

namespace SweepPlan

/-! ## Placing a cap -/

/-- Makes the layers from a position of the order on unprocessed, if the order is that long. -/
def unprocessFrom? (plan : SweepPlan) (position : Nat) (sweep : Sweep) : Option Sweep :=
  if position ≤ plan.order.length then do
    let later := plan.order.drop position
    let processed ← later.foldlM (fun processed id => write? processed id false) sweep.processed
    some { sweep with processed }
  else none

/-- Lets a cap arrive at a layer that stops it. -/
def placeCap? (plan : SweepPlan) (positions : Array Nat) (cap : Single) (consumer : Nat)
    (layer : Layer) (id : Nat) (state : Sweep × Bool) : Option (Sweep × Bool) := do
  let (sweep, tightened) := state
  if layer.isInput then
    let actual ← sweep.outputScale? id
    some (sweep.noteConflict { layer := consumer, input := id, required := cap, actual }, tightened)
  else
    let known? ← sweep.caps[id]?
    let tighter := match known? with
      | some known => decide (cap < known)
      | none => true
    if tighter then
      let caps ← write? sweep.caps id (some cap)
      let position ← positions[id]?
      let sweep ← plan.unprocessFrom? position sweep
      some ({ sweep with caps }, true)
    else some state

/-- Works off a stack of layers, from each of which a cap goes on to its inputs or is placed. The
search has no result if the stack is not empty after the given number of pops. -/
def search? (plan : SweepPlan) (positions : Array Nat) (cap : Single) (consumer : Nat) :
    Nat → List Nat → Array Bool → Sweep × Bool → Option (Sweep × Bool)
  | _, [], _, state => some state
  | 0, _ :: _, _, _ => none
  | pops + 1, id :: stack, visited, state => do
    let seen ← visited[id]?
    let visited ← write? visited id true
    if seen then search? plan positions cap consumer pops stack visited state
    else
      let layer ← plan.network.layer? id
      if layer.stopsCaps then
        let state ← plan.placeCap? positions cap consumer layer id state
        search? plan positions cap consumer pops stack visited state
      else
        search? plan positions cap consumer pops (layer.inputs.reverse ++ stack) visited state

/-- Caps the output scale of a layer for a consumer, or the scales that it is taken over from. -/
def pushCap? (plan : SweepPlan) (positions : Array Nat) (start : Nat) (cap : Single)
    (consumer : Nat) (state : Sweep × Bool) : Option (Sweep × Bool) :=
  plan.search? positions cap consumer (plan.network.edgeCount + 1) [start]
    (Array.replicate plan.network.size false) state

/-- Caps the output scales of several layers for a consumer. -/
def pushCaps? (plan : SweepPlan) (positions : Array Nat) (starts : List Nat) (cap : Single)
    (consumer : Nat) (sweep : Sweep) : Option (Sweep × Bool) :=
  starts.foldlM (fun state start => plan.pushCap? positions start cap consumer state) (sweep, false)

variable {plan : SweepPlan} {sweep : Sweep} {layer : Layer} {entries id consumer : Nat}
  {cap : Single}

/-- The layers from one on are unprocessed from its position on. -/
theorem Ordered.unprocessFrom?_eq (hplan : plan.Ordered)
    (h : sweep.Indexed plan.network.size entries) (hid : id < plan.network.size) :
    plan.unprocessFrom? id sweep = some (sweep.unprocess (plan.onwards id)) := by
  have hlength : id ≤ plan.order.length := by
    rw [hplan.order_eq, List.length_range]
    exact hid.le
  have hloop : (plan.onwards id).foldlM (fun processed id => write? processed id false)
        sweep.processed =
      some (sweep.unprocess (plan.onwards id)).processed := by
    refine (foldlM_eq_some (fun processed => processed.size = plan.network.size) _
      h.processed_size fun later hlater processed hprocessed => ?_).1
    have hlt := ((hplan.mem_onwards hid).1 hlater).2
    exact ⟨write?_eq (by rwa [hprocessed]) false, (Array.size_setIfInBounds ..).trans hprocessed⟩
  unfold unprocessFrom?
  rw [if_pos hlength, hplan.order_eq, ← hplan.onwards_eq hid]
  simp only [Option.bind_eq_bind, hloop, Option.bind_some]
  rfl

/-- Placing a cap is in range at a layer of the network that has an entry. -/
theorem Ordered.placeCap?_eq (hplan : plan.Ordered) (cap : Single) (consumer : Nat)
    {state : Sweep × Bool} (h : state.1.Indexed plan.network.size entries)
    (hlayer : plan.network.layer? id = some layer) (hentry : id < entries) :
    plan.placeCap? (.range plan.network.size) cap consumer layer id state =
        some (plan.placeCap cap consumer state id) ∧
      (plan.placeCap cap consumer state id).1.Indexed plan.network.size entries := by
  obtain ⟨sweep, tightened⟩ := state
  have hid : id < plan.network.size := Network.lt_size hlayer
  have hcaps : id < sweep.caps.size := by rwa [h.caps_size]
  unfold placeCap? placeCap
  rw [hlayer]
  cases hkind : layer.isInput with
  | true =>
      simp only [hkind, if_true, Sweep.outputScale?_eq (hentry.trans_eq h.table_size.symm)]
      exact ⟨rfl, h.noteConflict _⟩
  | false =>
      have hposition : (Array.range plan.network.size)[id]? = some id := by simp [hid]
      have hcap : sweep.caps[id]? = some (sweep.cap? id) := getElem?_eq_getD hcaps none
      simp only [hkind, Bool.false_eq_true, if_false, hcap, Option.bind_eq_bind, Option.bind_some,
        write?_eq hcaps, hposition, hplan.unprocessFrom?_eq h hid]
      cases sweep.cap? id with
      | none => exact ⟨rfl, h.tighten _ _ _⟩
      | some known =>
          by_cases htighter : cap < known
          · simp only [htighter, decide_true, if_true, true_and]
            exact h.tighten _ _ _
          · simp only [htighter, decide_false, Bool.false_eq_true, if_false, true_and]
            exact h

/-- The flags that are set are those of the layers in a list. -/
structure Marks (size : Nat) (visited : Array Bool) (seen : List Nat) : Prop where
  size_eq : visited.size = size
  getD_iff : ∀ id < size, visited.getD id false = true ↔ id ∈ seen

variable {size : Nat} {visited : Array Bool} {seen : List Nat}

theorem Marks.start (size : Nat) : Marks size (Array.replicate size false) [] where
  size_eq := Array.size_replicate
  getD_iff := fun id hid => by simp [Array.getD_eq_getD_getElem?, hid]

/-- A flag that is set adds its layer to the list. -/
theorem Marks.mark (h : Marks size visited seen) (hid : id < size) :
    Marks size (visited.setIfInBounds id true) (id :: seen) where
  size_eq := (Array.size_setIfInBounds ..).trans h.size_eq
  getD_iff := by
    intro other hother
    rw [getD_set (hid.trans_eq h.size_eq.symm), List.mem_cons, ← h.getD_iff other hother]
    split
    · rename_i heq
      simp [heq]
    · rename_i hne
      simp [hne]

/-- A layer that is in the list already changes nothing. -/
theorem Marks.of_cons (h : Marks size visited (id :: seen)) (hid : id ∈ seen) :
    Marks size visited seen where
  size_eq := h.size_eq
  getD_iff := by
    intro other hother
    rw [h.getD_iff other hother, List.mem_cons, or_iff_right_of_imp]
    rintro rfl
    exact hid

/-- A search whose stack holds layers with entries is in range and empties the stack, if there is a
pop for every layer on the stack and for every edge into a layer not visited yet. -/
theorem Ordered.search?_eq (hplan : plan.Ordered) (pops : Nat) {stack : List Nat}
    {state : Sweep × Bool} (h : state.1.Indexed plan.network.size entries)
    (hstack : ∀ id ∈ stack, id < plan.network.size ∧ id < entries)
    (hmarks : Marks plan.network.size visited seen)
    (hpops : stack.length + plan.network.openEdges seen ≤ pops) :
    plan.search? (.range plan.network.size) cap consumer pops stack visited state =
        some ((plan.network.frontierFrom pops stack seen).foldl
          (plan.placeCap cap consumer) state) ∧
      Sweep.Indexed plan.network.size entries
        ((plan.network.frontierFrom pops stack seen).foldl
          (plan.placeCap cap consumer) state).1 := by
  induction pops generalizing stack seen visited state with
  | zero =>
      obtain rfl : stack = [] := List.length_eq_zero_iff.1 (by omega)
      exact ⟨rfl, h⟩
  | succ pops ih =>
      cases stack with
      | nil => exact ⟨rfl, h⟩
      | cons id stack =>
          obtain ⟨hid, hentry⟩ := hstack id List.mem_cons_self
          have hrest : ∀ other ∈ stack, other < plan.network.size ∧ other < entries :=
            fun other hother => hstack other (List.mem_cons_of_mem _ hother)
          have hindex : id < visited.size := by rwa [hmarks.size_eq]
          have hmarked := hmarks.mark hid
          have hshrinks := plan.network.openEdges_cons_le id seen
          rw [List.length_cons] at hpops
          rw [Network.frontierFrom_cons, search?, getElem?_eq_getD hindex false]
          simp only [Option.bind_eq_bind, Option.bind_some, write?_eq hindex]
          by_cases hmem : id ∈ seen
          · rw [if_pos hmem, (hmarks.getD_iff id hid).2 hmem, if_pos rfl]
            exact ih h hrest (hmarked.of_cons hmem) (by omega)
          · have hflag : visited.getD id false = false :=
              Bool.eq_false_iff.2 fun htrue => hmem ((hmarks.getD_iff id hid).1 htrue)
            obtain ⟨layer, hlayer⟩ := Network.exists_layer hid
            have hown := hplan.formed.id_eq hlayer
            rw [if_neg hmem, hflag, hlayer]
            simp only [Bool.false_eq_true, if_false, Option.bind_some]
            by_cases hstops : layer.stopsCaps = true
            · obtain ⟨hplaced, hindexed⟩ := hplan.placeCap?_eq cap consumer h hlayer hentry
              rw [if_pos hstops, if_pos hstops, hplaced, List.foldl_cons]
              exact ih hindexed hrest hmarked (by omega)
            · -- The inputs that go onto the stack are paid for by the edges that close.
              have hvisit := plan.network.openEdges_visit seen (Network.layer?_mem hlayer)
                (by rwa [hown])
              rw [hown] at hvisit
              rw [if_neg hstops, if_neg hstops]
              refine ih h (fun other hother => ?_) hmarked
                (by simp only [List.length_append, List.length_reverse]; omega)
              rcases List.mem_append.1 hother with hinput | hother
              · have hlt := hplan.formed.inputs_lt hlayer other (List.mem_reverse.1 hinput)
                exact ⟨hlt.trans hid, hlt.trans hentry⟩
              · exact hrest other hother

/-- Pushing caps from layers with entries is in range. -/
theorem Ordered.pushCaps?_eq (hplan : plan.Ordered) (cap : Single) (consumer : Nat)
    {starts : List Nat} (h : sweep.Indexed plan.network.size entries)
    (hstarts : ∀ id ∈ starts, id < plan.network.size ∧ id < entries) :
    plan.pushCaps? (.range plan.network.size) starts cap consumer sweep =
        some (plan.pushCaps starts cap consumer sweep) ∧
      (plan.pushCaps starts cap consumer sweep).1.Indexed plan.network.size entries := by
  refine foldlM_eq_some (fun state : Sweep × Bool => state.1.Indexed plan.network.size entries)
    starts h fun start hstart state hstate => ?_
  refine hplan.search?_eq _ hstate (by simpa using hstarts start hstart) (.start _) ?_
  rw [Network.edgeCount_eq, List.length_singleton, Nat.add_comm]

end SweepPlan

end LayerQuant
