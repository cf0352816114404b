import Mathlib
import LayerQuant.Proofs.RangeRank

/-!
# Propagation runs dry

A layer waits in the queue at most once (`Worklist.Tidy`), and every step either shortens the queue
or raises a rank. Ranks are bounded, so the visits made and the layers waiting stay within a bound
that the ranks pay for (`Worklist.Paid`), and the queue runs empty. From then on a larger budget
changes nothing. Read `propagate_converges` first.
-/

namespace LayerQuant

namespace Worklist

variable {alters : Layer → Bool} {network : Network} {work : Worklist} {values : Finset Int}
  {id size : Nat}

/-! ## The queue -/

/-- There is a flag for each of `size` layers, and a layer in the queue is there once and has its
flag set. -/
structure Tidy (size : Nat) (work : Worklist) : Prop where
  size_eq : work.queued.size = size
  nodup : work.queue.Nodup
  flagged : ∀ id ∈ work.queue, id < size ∧ work.queued.getD id true = true

/-- No more layers wait than there are. -/
theorem Tidy.length_le (h : Tidy size work) : work.queue.length ≤ size := by
  have hrange : work.queue.toFinset ⊆ Finset.range size := by
    intro id hid
    exact Finset.mem_range.2 (h.flagged id (List.mem_toFinset.1 hid)).1
  calc work.queue.length
      = work.queue.toFinset.card := (List.toFinset_card_of_nodup h.nodup).symm
    _ ≤ (Finset.range size).card := Finset.card_le_card hrange
    _ = size := Finset.card_range size

theorem Tidy.enqueue (h : Tidy size work) (id : Nat) : Tidy size (work.enqueue id) := by
  unfold Worklist.enqueue
  split
  · exact h
  · rename_i hflag
    -- A layer without a flag has one to set, and does not wait yet.
    have hid : id < work.queued.size := lt_of_getD_ne hflag
    have hfresh : id ∉ work.queue := fun hmem => hflag (h.flagged id hmem).2
    refine ⟨by simp [h.size_eq], ?_, ?_⟩
    · show (work.queue ++ [id]).Nodup
      rw [List.nodup_append]
      refine ⟨h.nodup, List.nodup_singleton id, ?_⟩
      intro other hother last hlast heq
      obtain rfl := List.mem_singleton.1 hlast
      exact hfresh (heq ▸ hother)
    · intro other hother
      rcases List.mem_append.1 hother with hwaiting | hlast
      · obtain ⟨hlt, hset⟩ := h.flagged other hwaiting
        have hne : other ≠ id := by
          rintro rfl
          exact hfresh hwaiting
        exact ⟨hlt, (getD_set_of_ne hne true true).trans hset⟩
      · obtain rfl := List.mem_singleton.1 hlast
        refine ⟨hid.trans_eq h.size_eq, ?_⟩
        simp [Array.getD_eq_getD_getElem?, hid]

theorem Tidy.foldl_enqueue (h : Tidy size work) (ids : List Nat) :
    Tidy size (ids.foldl Worklist.enqueue work) := by
  induction ids generalizing work with
  | nil => exact h
  | cons id rest ih => exact ih (h.enqueue id)

/-- The first layer of the queue is taken out by clearing its flag. -/
theorem Tidy.take {steps : Nat} {rest : List Nat} (h : Tidy size work)
    (hqueue : work.queue = id :: rest) (table : EdgeTable) :
    Tidy size { queue := rest, queued := work.queued.setIfInBounds id false, table, steps } := by
  have hnodup := h.nodup
  rw [hqueue, List.nodup_cons] at hnodup
  refine ⟨by simp [h.size_eq], hnodup.2, ?_⟩
  intro other hother
  obtain ⟨hlt, hset⟩ := h.flagged other (hqueue ▸ List.mem_cons_of_mem _ hother)
  have hne : other ≠ id := by
    rintro rfl
    exact hnodup.1 hother
  exact ⟨hlt, (getD_set_of_ne hne false true).trans hset⟩

/-- Queueing layers makes no visit. -/
theorem steps_foldl_enqueue (ids : List Nat) (work : Worklist) :
    (ids.foldl Worklist.enqueue work).steps = work.steps := by
  induction ids generalizing work with
  | nil => rfl
  | cons id rest ih =>
      rw [List.foldl_cons, ih]
      unfold Worklist.enqueue
      split <;> rfl

theorem steps_step (successors : Array (List Nat)) (rest : List Nat) :
    (work.step alters network successors id rest).steps = work.steps + 1 := by
  rw [step_eq, steps_foldl_enqueue]

/-! ## What pays for a step -/

/-- The visits made and the layers waiting are paid for: once around the layers at the start, and
once more by every value that a tensor has reached. -/
structure Paid (values : Finset Int) (network : Network) (work : Worklist) : Prop where
  tidy : Tidy network.size work
  size_le : network.size ≤ work.table.size
  within : work.table.Within values network.size
  steps_le : work.steps + work.queue.length ≤
    network.size + network.size * work.table.rank values network.size

/-- A step visits a layer, after which the queue is shorter or a rank higher. -/
theorem Paid.step (hformed : network.WellFormed) {rest : List Nat}
    (hqueue : work.queue = id :: rest) (h : Paid values network work) :
    Paid values network (work.step alters network network.successorLists id rest) := by
  have hid : id < network.size := (h.tidy.flagged id (hqueue ▸ List.mem_cons_self)).1
  obtain ⟨layer, hlayer⟩ := Network.exists_layer hid
  have hmem : layer ∈ network.layers.toList := Network.layer?_mem hlayer
  have hvisit : work.stepVisit alters network id = work.table.visit alters layer := by
    unfold stepVisit
    rw [hlayer]
  have htable : (work.step alters network network.successorLists id rest).table =
      (work.table.visit alters layer).1 := by
    rw [step_eq, table_foldl_enqueue, hvisit]
  have htidy : Tidy network.size
      (work.step alters network network.successorLists id rest) := by
    rw [step_eq]
    exact (h.tidy.take hqueue _).foldl_enqueue _
  have hpaid := h.steps_le
  rw [hqueue, List.length_cons] at hpaid
  refine ⟨htidy, ?_, ?_, ?_⟩
  · rw [htable, EdgeTable.size_visit]
    exact h.size_le
  · rw [htable]
    exact h.within.visit hformed hmem
  · rw [steps_step, htable]
    cases hchanged : (work.table.visit alters layer).2 with
    | nil =>
        -- Nothing is reported, so nothing is queued.
        have hlength : (work.step alters network network.successorLists id rest).queue = rest := by
          rw [step_eq, hvisit, hchanged]
          rfl
        have hkept : work.table.rank values network.size ≤
            (work.table.visit alters layer).1.rank values network.size :=
          EdgeTable.rank_le_visit hformed hmem h.within
        have hscaled := Nat.mul_le_mul_left network.size hkept
        rw [hlength]
        omega
    | cons changed others =>
        -- A reported layer has risen, which pays for a whole queue.
        have hreported : changed ∈ (work.table.visit alters layer).2 := by
          rw [hchanged]
          exact List.mem_cons_self
        have hrisen := EdgeTable.rank_lt_visit hformed hmem h.within h.size_le hreported
        have hscaled := Nat.mul_le_mul_left network.size (Nat.succ_le_of_lt hrisen)
        have hlength := htidy.length_le
        rw [Nat.mul_succ] at hscaled
        omega

theorem Paid.drain (hformed : network.WellFormed) (visits : Nat) (h : Paid values network work) :
    Paid values network (work.drain alters network network.successorLists visits) := by
  induction visits generalizing work with
  | zero => exact h
  | succ visits ih =>
      unfold Worklist.drain
      split
      · exact h
      · rename_i hqueue
        exact ih (h.step hformed hqueue)

/-- What is paid for is bounded. -/
theorem Paid.bound (h : Paid values network work) : work.steps + work.queue.length ≤
    network.size + 2 * network.size * network.size * values.card := by
  calc work.steps + work.queue.length
      ≤ network.size + network.size * work.table.rank values network.size := h.steps_le
    _ ≤ network.size + network.size * (2 * network.size * values.card) :=
        Nat.add_le_add_left (Nat.mul_le_mul_left _ (work.table.rank_le values network.size)) _
    _ = network.size + 2 * network.size * network.size * values.card := by ring

/-! ## Budgets -/

variable {successors : Array (List Nat)}

theorem drain_of_nil (visits : Nat) (h : work.queue = []) :
    work.drain alters network successors visits = work := by
  cases visits with
  | zero => rfl
  | succ visits =>
      unfold Worklist.drain
      rw [h]

theorem drain_of_cons {rest : List Nat} (visits : Nat) (h : work.queue = id :: rest) :
    work.drain alters network successors (visits + 1) =
      (work.step alters network successors id rest).drain alters network successors visits := by
  conv_lhs => unfold Worklist.drain
  rw [h]

theorem drain_add (first later : Nat) : work.drain alters network successors (first + later) =
    (work.drain alters network successors first).drain alters network successors later := by
  induction first generalizing work with
  | zero => rw [Nat.zero_add]; rfl
  | succ first ih =>
      cases hqueue : work.queue with
      | nil => rw [drain_of_nil _ hqueue, drain_of_nil _ hqueue, drain_of_nil _ hqueue]
      | cons id rest =>
          rw [Nat.succ_add, drain_of_cons _ hqueue, drain_of_cons _ hqueue]
          exact ih

theorem steps_le_drain (visits : Nat) :
    work.steps ≤ (work.drain alters network successors visits).steps := by
  induction visits generalizing work with
  | zero => exact le_rfl
  | succ visits ih =>
      cases hqueue : work.queue with
      | nil => rw [drain_of_nil _ hqueue]
      | cons id rest =>
          rw [drain_of_cons _ hqueue]
          have hlater := @ih (work.step alters network successors id rest)
          rw [steps_step] at hlater
          omega

/-- Every visit of the budget is made, unless the queue runs empty. -/
theorem drain_steps (visits : Nat) :
    (work.drain alters network successors visits).steps ≤ work.steps + visits ∧
      ((work.drain alters network successors visits).queue = [] ∨
        (work.drain alters network successors visits).steps = work.steps + visits) := by
  induction visits generalizing work with
  | zero => exact ⟨le_rfl, Or.inr rfl⟩
  | succ visits ih =>
      cases hqueue : work.queue with
      | nil =>
          rw [drain_of_nil _ hqueue]
          exact ⟨Nat.le_add_right _ _, Or.inl hqueue⟩
      | cons id rest =>
          obtain ⟨hle, hends⟩ := @ih (work.step alters network successors id rest)
          rw [steps_step] at hle hends
          rw [drain_of_cons _ hqueue]
          exact ⟨by omega, hends.imp_right fun heq => by omega⟩

/-- A queue that a large budget empties is emptied by every budget that covers the visits made, in
the same way, and by no smaller one. -/
theorem drain_of_drained {visits : Nat} {final : Worklist}
    (hfinal : work.drain alters network successors visits = final) (hempty : final.queue = [])
    (budget : Nat) :
    (final.steps ≤ work.steps + budget → work.drain alters network successors budget = final) ∧
      (work.steps + budget < final.steps →
        (work.drain alters network successors budget).queue ≠ []) := by
  rcases Nat.le_total budget visits with hless | hmore
  · obtain ⟨left, rfl⟩ := Nat.exists_eq_add_of_le hless
    obtain ⟨hmade, hends⟩ :=
      @drain_steps alters network work successors budget
    rw [drain_add] at hfinal
    generalize work.drain alters network successors budget = middle at hfinal hmade hends ⊢
    cases hqueue : middle.queue with
    | nil =>
        rw [drain_of_nil _ hqueue] at hfinal
        subst hfinal
        exact ⟨fun _ => rfl, fun hlt => by omega⟩
    | cons id rest =>
        have hspent : middle.steps = work.steps + budget :=
          hends.resolve_left (by simp [hqueue])
        cases left with
        | zero =>
            -- The large budget is spent as well, but it was enough.
            have hsame : middle = final := hfinal
            rw [hsame, hempty] at hqueue
            cases hqueue
        | succ left =>
            rw [drain_of_cons _ hqueue] at hfinal
            have hlater := @steps_le_drain alters network
              (middle.step alters network successors id rest) successors left
            rw [steps_step, hfinal] at hlater
            exact ⟨fun hle => by omega, fun _ => List.cons_ne_nil _ _⟩
  · obtain ⟨more, rfl⟩ := Nat.exists_eq_add_of_le hmore
    have hmade := (@drain_steps alters network work successors visits).1
    rw [hfinal] at hmade
    rw [drain_add, hfinal, drain_of_nil _ hempty]
    exact ⟨fun _ => rfl, fun hlt => by omega⟩

end Worklist

namespace Propagator

variable {propagator : Propagator} {network : Network} {table : EdgeTable} {report : Propagation}

/-- The worklist that a propagation begins with: every layer waits, in the order of the network. -/
def startWork (network : Network) (table : EdgeTable) : Worklist where
  queue := List.range network.size
  queued := Array.replicate network.size true
  table := table

/-- At the start every layer waits once. -/
theorem startWork_tidy (network : Network) (table : EdgeTable) :
    Worklist.Tidy network.size (startWork network table) := by
  refine ⟨Array.size_replicate, List.nodup_range, ?_⟩
  intro id hid
  have hlt : id < network.size := List.mem_range.1 hid
  exact ⟨hlt, by simp [startWork, Array.getD_eq_getD_getElem?, hlt]⟩

/-- At the start the ranges are among their own values. -/
theorem startWork_paid (hsize : network.size ≤ table.size)
    (hnumbers : ∀ range ∈ table.circulating network.size, range.isNaN = false) :
    Worklist.Paid (Binary.places (table.circulating network.size)) network
      (startWork network table) where
  tidy := startWork_tidy network table
  size_le := hsize
  within := EdgeTable.within_places hnumbers
  steps_le := by
    show 0 + (List.range network.size).length ≤ _
    rw [List.length_range]
    omega

/-- The worklist drains. It ends the same for every budget that covers its visits, and for no smaller
one. -/
theorem startWork_drains (hbuilt : network.Built) (hsize : network.size ≤ table.size)
    (hnumbers : ∀ range ∈ table.circulating network.size, range.isNaN = false)
    (alters : Layer → Bool) :
    ∃ final : Worklist, final.queue = [] ∧
      final.steps ≤ network.size + 2 * network.size * network.size *
        (Binary.places (table.circulating network.size)).card ∧
      ∀ budget,
        (final.steps ≤ budget → (startWork network table).drain alters network
          network.successorLists budget = final) ∧
        (budget < final.steps → ((startWork network table).drain alters network
          network.successorLists budget).queue ≠ []) := by
  have hstart := startWork_paid hsize hnumbers
  have hnone : (startWork network table).steps = 0 := rfl
  generalize hbound : network.size + 2 * network.size * network.size *
    (Binary.places (table.circulating network.size)).card = bound
  generalize hfinal : (startWork network table).drain alters network network.successorLists
    bound = final
  have hspent := @Worklist.drain_steps alters network (startWork network table)
    network.successorLists bound
  have hpaid := (@Worklist.Paid.drain alters _ _ _ hbuilt.wellFormed bound hstart).bound
  rw [hfinal] at hspent hpaid
  rw [hbound] at hpaid
  have hempty : final.queue = [] := by
    by_contra hopen
    have hlength := List.length_pos_iff.2 hopen
    have hall := hspent.2.resolve_left hopen
    omega
  refine ⟨final, hempty, by omega, fun budget => ?_⟩
  have hdrained := Worklist.drain_of_drained hfinal hempty budget
  rwa [hnone, Nat.zero_add] at hdrained

/-- What a propagation returns follows from the worklist that the visits leave. -/
def conclude (propagator : Propagator) (network : Network) (work : Worklist) :
    EdgeTable × Except Error Propagation :=
  if !work.queue.isEmpty then
    (work.table, .error (.rangeNotConverged propagator.maxSteps))
  else
    let anomalies := network.layers.toList.filterMap (propagator.anomaly? work.table)
    match propagator.strict, anomalies with
    | true, first :: _ =>
      (work.table, .error (.rangeAnomaly first.name first.calibrated first.aggregated))
    | _, _ => (work.table, .ok { steps := work.steps, anomalies })

theorem propagate_eq (hbuilt : network.Built) (hsize : network.size ≤ table.size)
    (propagator : Propagator) : propagator.propagate network table =
      propagator.conclude network ((startWork network table).drain propagator.alters network
        network.successorLists propagator.maxSteps) := by
  unfold propagate
  rw [if_neg (Nat.not_lt.2 hsize), hbuilt.wellFormed.topologicalOrder_eq]
  rfl

/-- With an empty queue the budget does not matter: the outcome is a report of the visits made, or
an anomaly. -/
theorem conclude_of_nil {work : Worklist} (hempty : work.queue = []) (propagator : Propagator)
    (maxSteps : Nat) :
    { propagator with maxSteps }.conclude network work = propagator.conclude network work ∧
      (∀ budget, (propagator.conclude network work).2 ≠ .error (.rangeNotConverged budget)) ∧
      ∀ report, (propagator.conclude network work).2 = .ok report → report.steps = work.steps := by
  have hdone : ¬ (!work.queue.isEmpty) = true := by simp [hempty]
  unfold conclude
  rw [if_neg hdone, if_neg hdone]
  refine ⟨rfl, ?_, ?_⟩
  · intro budget
    dsimp only
    split
    · simp
    · simp
  · intro report hreport
    dsimp only at hreport
    split at hreport
    · cases hreport
    · cases hreport
      rfl

/-- With layers left in the queue the budget has run out. -/
theorem conclude_of_ne_nil {work : Worklist} (hqueue : work.queue ≠ [])
    (propagator : Propagator) : (propagator.conclude network work).2 =
      .error (.rangeNotConverged propagator.maxSteps) := by
  have hopen : (!work.queue.isEmpty) = true := by simpa using hqueue
  unfold conclude
  rw [if_pos hopen]

/-- A propagation neither adds entries nor takes any away. -/
theorem size_propagate (propagator : Propagator) (network : Network) (table : EdgeTable) :
    (propagator.propagate network table).1.size = table.size :=
  propagate_table (Φ := fun current => current.size = table.size)
    (fun _ _ _ hcurrent => EdgeTable.size_visit.trans hcurrent) rfl

/-- The table that a propagation returns is the one that its visits leave. -/
theorem conclude_table (propagator : Propagator) (network : Network) (work : Worklist) :
    (propagator.conclude network work).1 = work.table := by
  unfold conclude
  split
  · rfl
  · dsimp only
    split <;> rfl

/-- A propagation succeeds only with an empty queue. -/
theorem queue_of_conclude {work : Worklist} (h : (propagator.conclude network work).2 = .ok report) :
    work.queue = [] := by
  by_contra hopen
  rw [conclude_of_ne_nil hopen] at h
  cases h

/-- A table that is too short is noticed before the first visit. -/
theorem conclude_ne_unknownLayer (work : Worklist) (id : Nat) :
    (propagator.conclude network work).2 ≠ .error (.unknownLayer id) := by
  unfold conclude
  split
  · simp
  · dsimp only
    split <;> simp

/-- Propagation converges on its own, whatever the graph and the budget. There is a number of visits,
bounded by the layers and the distinct values of the ranges that visits pass on, such that every
budget below it runs out, and every budget from it on ends with the same table, the same outcome
and, in a report, that number of visits. -/
theorem propagate_converges (hbuilt : network.Built) (hsize : network.size ≤ table.size)
    (hnumbers : ∀ range ∈ table.circulating network.size, range.isNaN = false)
    (propagator : Propagator) :
    ∃ steps ≤ network.size + 2 * network.size * network.size *
        (Binary.places (table.circulating network.size)).card,
      ∀ maxSteps,
        (maxSteps < steps → ({ propagator with maxSteps }.propagate network table).2 =
          .error (.rangeNotConverged maxSteps)) ∧
        (steps ≤ maxSteps →
          { propagator with maxSteps }.propagate network table =
              { propagator with maxSteps := steps }.propagate network table ∧
            (∀ budget, ({ propagator with maxSteps }.propagate network table).2 ≠
              .error (.rangeNotConverged budget)) ∧
            ∀ report, ({ propagator with maxSteps }.propagate network table).2 = .ok report →
              report.steps = steps) := by
  obtain ⟨final, hempty, hbound, hdrains⟩ :=
    startWork_drains hbuilt hsize hnumbers propagator.alters
  refine ⟨final.steps, hbound, fun maxSteps => ⟨fun hless => ?_, fun henough => ?_⟩⟩
  · rw [propagate_eq hbuilt hsize]
    exact conclude_of_ne_nil ((hdrains maxSteps).2 hless) _
  · obtain ⟨hsame, hconverged, hreport⟩ := conclude_of_nil hempty propagator maxSteps
    have hlarge : { propagator with maxSteps }.propagate network table =
        propagator.conclude network final := by
      rw [propagate_eq hbuilt hsize, ← hsame]
      exact congrArg _ ((hdrains maxSteps).1 henough)
    have hexact : { propagator with maxSteps := final.steps }.propagate network table =
        propagator.conclude network final := by
      rw [propagate_eq hbuilt hsize, ← (conclude_of_nil hempty propagator final.steps).1]
      exact congrArg _ ((hdrains final.steps).1 le_rfl)
    rw [hlarge, hexact]
    exact ⟨rfl, hconverged, hreport⟩

/-- An input, a copy of it, and a copy of that copy, which the first copy reads one step later. -/
def cycle : Network where
  layers := #[{ id := 0, name := "in", kind := .input },
    { id := 1, name := "first", kind := .copy, inputs := [0], recurrentInputs := [2] },
    { id := 2, name := "second", kind := .copy, inputs := [1] }]
  inputs := [0]

theorem cycle_built : cycle.Built := by
  have hinput : Network.addInput {} "in" =
      .ok (⟨#[{ id := 0, name := "in", kind := .input }], [0]⟩, 0) := by cbv
  have hfirst : Network.addLayer ⟨#[{ id := 0, name := "in", kind := .input }], [0]⟩ "first" .copy
      [0] = .ok (⟨#[{ id := 0, name := "in", kind := .input },
        { id := 1, name := "first", kind := .copy, inputs := [0] }], [0]⟩, 1) := by cbv
  have hsecond : Network.addLayer ⟨#[{ id := 0, name := "in", kind := .input },
      { id := 1, name := "first", kind := .copy, inputs := [0] }], [0]⟩ "second" .copy [1] =
      .ok (⟨#[{ id := 0, name := "in", kind := .input },
        { id := 1, name := "first", kind := .copy, inputs := [0] },
        { id := 2, name := "second", kind := .copy, inputs := [1] }], [0]⟩, 2) := by cbv
  have hedge : Network.addRecurrentEdge ⟨#[{ id := 0, name := "in", kind := .input },
      { id := 1, name := "first", kind := .copy, inputs := [0] },
      { id := 2, name := "second", kind := .copy, inputs := [1] }], [0]⟩ 2 1 = .ok cycle := by cbv
  exact .addRecurrentEdge (.addLayer (.addLayer (.addInput .empty hinput) hfirst) hsecond) hedge

/-- The range of the input of `cycle` is three, that of the second copy five. -/
def cycleTable : EdgeTable where
  layers := #[{ output := { range? := some (.ofNat .single 3) } }, {},
    { output := { range? := some (.ofNat .single 5) } }]

theorem cycle_converges :
    cycle.size ≤ cycleTable.size ∧
      (∀ range ∈ cycleTable.circulating cycle.size, range.isNaN = false) ∧
      ∃ steps ≤ 39, ∀ maxSteps, steps ≤ maxSteps → ∀ budget,
        ({ Config.propagator {} with maxSteps }.propagate cycle cycleTable).2 ≠
          .error (.rangeNotConverged budget) := by
  have hsize : cycle.size ≤ cycleTable.size := by decide
  have hnumbers : ∀ range ∈ cycleTable.circulating cycle.size, range.isNaN = false := by
    decide +kernel
  have hvalues : (Binary.places (cycleTable.circulating cycle.size)).card = 2 := by
    decide +kernel
  obtain ⟨steps, hbound, hconverges⟩ :=
    propagate_converges cycle_built hsize hnumbers (Config.propagator {})
  rw [hvalues] at hbound
  refine ⟨hsize, hnumbers, steps, hbound, ?_⟩
  intro maxSteps henough
  exact ((hconverges maxSteps).2 henough).2.1

end Propagator

end LayerQuant
