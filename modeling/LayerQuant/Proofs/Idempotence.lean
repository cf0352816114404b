import Mathlib
import LayerQuant.Proofs.Convergence

/-!
# Propagating twice

A propagation that succeeds has emptied its queue, so every layer is quiet, also where ranges are no
numbers. A visit of a quiet layer changes nothing and queues nothing, so the second propagation
visits every layer once (`drain_of_quiet`). The first one has done that much at least
(`length_le_drain`), and the same budget is enough. Read `propagate_idempotent` first.
-/

namespace LayerQuant

namespace Worklist

variable {alters : Layer → Bool} {network : Network} {work : Worklist}
  {successors : Array (List Nat)} {id : Nat}

/-! ## Visits of quiet layers -/

/-- With every layer quiet, a step takes a layer from the queue and does nothing else. -/
theorem step_of_quiet (rest : List Nat)
    (hquiet : ∀ layer ∈ network.layers.toList, work.table.Quiet alters layer) :
    work.step alters network successors id rest =
      { queue := rest, queued := work.queued.setIfInBounds id false, table := work.table,
        steps := work.steps + 1 } := by
  have hvisit : work.stepVisit alters network id = (work.table, []) := by
    unfold stepVisit
    cases hlayer : network.layer? id with
    | none => rfl
    | some layer => exact (hquiet layer (Network.layer?_mem hlayer)).visit
  rw [step_eq, hvisit]
  rfl

/-- With every layer quiet, a budget for the layers that wait is enough to visit each of them, and
nothing else happens. -/
theorem drain_of_quiet (visits : Nat)
    (hquiet : ∀ layer ∈ network.layers.toList, work.table.Quiet alters layer)
    (hvisits : work.queue.length ≤ visits) :
    (work.drain alters network successors visits).queue = [] ∧
      (work.drain alters network successors visits).table = work.table ∧
      (work.drain alters network successors visits).steps = work.steps + work.queue.length := by
  induction visits generalizing work with
  | zero =>
      have hempty : work.queue = [] := List.length_eq_zero_iff.1 (Nat.le_zero.1 hvisits)
      exact ⟨hempty, rfl, by simp [drain, hempty]⟩
  | succ visits ih =>
      cases hqueue : work.queue with
      | nil =>
          rw [drain_of_nil _ hqueue]
          exact ⟨hqueue, rfl, rfl⟩
      | cons id rest =>
          rw [hqueue, List.length_cons] at hvisits
          rw [drain_of_cons _ hqueue, step_of_quiet rest hquiet]
          obtain ⟨hempty, htable, hsteps⟩ := @ih
            { queue := rest, queued := work.queued.setIfInBounds id false, table := work.table,
              steps := work.steps + 1 } hquiet (Nat.le_of_succ_le_succ hvisits)
          refine ⟨hempty, htable, ?_⟩
          rw [hsteps, List.length_cons, Nat.add_assoc, Nat.add_comm 1]

/-! ## No layer is left out -/

theorem length_le_foldl_enqueue (ids : List Nat) (work : Worklist) :
    work.queue.length ≤ (ids.foldl Worklist.enqueue work).queue.length := by
  induction ids generalizing work with
  | nil => exact le_rfl
  | cons id rest ih =>
      have hfirst : work.queue.length ≤ (work.enqueue id).queue.length := by
        unfold Worklist.enqueue
        split
        · exact le_rfl
        · simp
      exact hfirst.trans (ih _)

/-- Every layer that waits is visited or goes on waiting. -/
theorem length_le_drain (visits : Nat) : work.steps + work.queue.length ≤
    (work.drain alters network successors visits).steps +
      (work.drain alters network successors visits).queue.length := by
  induction visits generalizing work with
  | zero => exact le_rfl
  | succ visits ih =>
      cases hqueue : work.queue with
      | nil =>
          rw [drain_of_nil _ hqueue, hqueue]
      | cons id rest =>
          rw [drain_of_cons _ hqueue, List.length_cons]
          have hlater := @ih (work.step alters network successors id rest)
          have hkept : rest.length ≤
              (work.step alters network successors id rest).queue.length := by
            rw [step_eq]
            exact length_le_foldl_enqueue _ { queue := rest, steps := work.steps + 1, .. }
          rw [steps_step] at hlater
          omega

end Worklist

namespace Propagator

variable {propagator : Propagator} {network : Network} {table : EdgeTable} {report : Propagation}

/-- With an empty queue the table decides over everything but the number of visits. -/
theorem conclude_congr {work again : Worklist}
    (h : (propagator.conclude network work).2 = .ok report) (hempty : again.queue = [])
    (htable : again.table = work.table) :
    propagator.conclude network again =
      (work.table, .ok { report with steps := again.steps }) := by
  have hdone : ¬ (!work.queue.isEmpty) = true := by simp [queue_of_conclude h]
  have hagain : ¬ (!again.queue.isEmpty) = true := by simp [hempty]
  unfold conclude at h ⊢
  rw [if_neg hdone] at h
  rw [if_neg hagain, htable]
  dsimp only at h ⊢
  split at h
  · cases h
  · obtain rfl := Except.ok.inj h
    rfl

/-- A propagation that succeeds has emptied the queue and left every layer quiet, and its budget
covers a visit to each. -/
theorem exists_drained (hbuilt : network.Built)
    (h : (propagator.propagate network table).2 = .ok report) :
    ∃ work : Worklist, propagator.propagate network table = propagator.conclude network work ∧
      (∀ layer ∈ network.layers.toList, work.table.Quiet propagator.alters layer) ∧
      network.size ≤ work.table.size ∧ network.size ≤ propagator.maxSteps := by
  have hsize : network.size ≤ table.size := by
    by_contra hshort
    unfold propagate at h
    rw [if_pos (Nat.lt_of_not_le hshort)] at h
    cases h
  have hkept := size_propagate propagator network table
  have heq := propagate_eq hbuilt hsize propagator
  have hcovers : Worklist.Covers propagator.alters network ((startWork network table).drain
      propagator.alters network network.successorLists propagator.maxSteps) :=
    (Worklist.Covers.start propagator.alters network table).drain hbuilt.wellFormed _
  have hlength := @Worklist.length_le_drain propagator.alters network (startWork network table)
    network.successorLists propagator.maxSteps
  have hspent := (@Worklist.drain_steps propagator.alters network (startWork network table)
    network.successorLists propagator.maxSteps).1
  generalize (startWork network table).drain propagator.alters network network.successorLists
    propagator.maxSteps = work at heq hcovers hlength hspent
  rw [heq] at h hkept
  rw [conclude_table] at hkept
  have hempty : work.queue = [] := queue_of_conclude h
  refine ⟨work, heq, hcovers.quiet_of_nil hbuilt.wellFormed hempty, hsize.trans_eq hkept.symm, ?_⟩
  -- Every layer waits at the start and none in the end, so each was visited.
  have hstart : (startWork network table).queue.length = network.size := List.length_range
  have hnone : (startWork network table).steps = 0 := rfl
  rw [hempty, List.length_nil] at hlength
  omega

/-- What a propagation that succeeds returns, a second one leaves as it is. The second one makes one
visit for each layer and reports the same anomalies, whatever the policy, the budget and the ranges,
which need not be numbers. -/
theorem propagate_idempotent (hbuilt : network.Built)
    (h : (propagator.propagate network table).2 = .ok report) :
    propagator.propagate network (propagator.propagate network table).1 =
      ((propagator.propagate network table).1, .ok { report with steps := network.size }) := by
  obtain ⟨work, heq, hquiet, hsize, hbudget⟩ := exists_drained hbuilt h
  rw [heq] at h
  rw [heq, conclude_table, propagate_eq hbuilt hsize]
  have hstart : (startWork network work.table).queue.length = network.size := List.length_range
  have hnone : (startWork network work.table).steps = 0 := rfl
  obtain ⟨hempty, htable, hsteps⟩ := @Worklist.drain_of_quiet propagator.alters network
    (startWork network work.table) network.successorLists propagator.maxSteps hquiet
    (hstart.trans_le hbudget)
  rw [conclude_congr h hempty htable, hsteps, hstart, hnone, Nat.zero_add]

/-- The range of the input of `echo` is not a number, but an aggregated one is known there. -/
def unsureTable : EdgeTable where
  layers := #[{ output := { range? := some .nan, aggregated? := some (.ofNat .single 3) } }, {}]

theorem echo_propagates_twice :
    echo.Built ∧ ((Config.propagator {}).propagate echo unsureTable).2 = .ok { steps := 3 } ∧
      (Config.propagator {}).propagate echo
          ((Config.propagator {}).propagate echo unsureTable).1 =
        (((Config.propagator {}).propagate echo unsureTable).1, .ok { steps := 2 }) := by
  have hok : ((Config.propagator {}).propagate echo unsureTable).2 = .ok { steps := 3 } := by
    have horder : echo.topologicalOrder = .ok [0, 1] := by cbv
    have hsuccessors : echo.successorLists = #[[1], [1]] := by cbv
    rw [Propagator.propagate, horder, hsuccessors]
    decide +kernel
  exact ⟨echo_built, hok, propagate_idempotent echo_built hok⟩

end Propagator

end LayerQuant
