import Mathlib
import LayerQuant.Proofs.CheckedCalls
import LayerQuant.Proofs.NotedConflicts
import LayerQuant.Proofs.PlacedCaps

/-!
# Pushing a cap in any sweep

Whoever holds a sweep may call it in any order, with any tables. Whatever the calls were, the caps of
the sweep are numbers (`Reachable.hasNumberCaps`) and its arrays have a place for each layer
(`Reachable.indexed`). So a cap that is pushed changes what `PlacedCaps` says and nothing else, and
the search for the layers that it reaches ends (`pushCap_caps_frontier`).
-/

namespace LayerQuant

namespace SweepPlan

variable {plan : SweepPlan} {before sweep after : Sweep} {state result : Sweep × Bool}
  {cap : Single} {consumer : Nat}

/-! ## The caps of reachable sweeps -/

/-- The sweep is reached from a fresh one by calls, and by caps that are pushed. Deriving a layer may
push several caps, and the sweeps between them are reached too. -/
inductive Reachable (plan : SweepPlan) : Sweep → Prop where
  | start (table : EdgeTable) : Reachable plan (.start plan.network table)
  | call {sweep : Sweep} (call : TableCall) :
      Reachable plan sweep → Reachable plan (call.perform plan sweep).1
  | push {sweep : Sweep} {start consumer : Nat} {cap : Single} :
      Reachable plan sweep → cap.isNaN = false →
      Reachable plan (plan.pushCap start cap consumer (sweep, false)).1

theorem Pushed.hasNumberCaps {P : Single → Prop} (hpushed : plan.Pushed P before after)
    (hP : ∀ cap, P cap → cap.isNaN = false) (h : before.HasNumberCaps) :
    after.HasNumberCaps := by
  induction hpushed with
  | refl => exact h
  | @note middle conflict _ ih =>
      obtain ⟨⟨noted, _, heq⟩, _⟩ := middle.noted_noteConflict conflict
      rw [heq]
      exact ih
  | @tighten middle tightened layer cap _ hcap _ _ _ ih =>
      intro id known hknown
      by_cases heq : id = tightened
      · subst heq
        have hsize := Sweep.lt_of_cap? hknown
        rw [Array.size_setIfInBounds] at hsize
        have hset := (middle.cap?_set id cap hsize id).symm.trans hknown
        rw [if_pos rfl] at hset
        rw [← Option.some.inj hset]
        exact hP cap hcap
      · exact ih id known ((getD_set_of_ne heq (some cap) none).symm.trans hknown)

section Keeps

variable {P : Sweep → Prop}

/-- What calls for single layers keep, a pass keeps. -/
theorem pass_keeps (htransform : ∀ id {sweep}, P sweep → P (plan.transform id sweep).1)
    (ids : List Nat) (h : P sweep) : P (plan.pass ids sweep).1 := by
  induction ids generalizing sweep with
  | nil => exact h
  | cons id rest ih =>
      have hafter := htransform id h
      unfold pass
      generalize plan.transform id sweep = result at hafter
      obtain ⟨after, answer⟩ := result
      cases answer with
      | error error => exact hafter
      | ok _ =>
          dsimp only
          split
          · exact hafter
          · exact ih hafter

/-- What calls for single layers and the begin of a pass keep, passes keep. -/
theorem passes_keeps (htransform : ∀ id {sweep}, P sweep → P (plan.transform id sweep).1)
    (hstart : ∀ {sweep}, P sweep → P (plan.startPass sweep).1) (count : Nat) (h : P sweep) :
    P (plan.passes count sweep).1 := by
  induction count generalizing sweep with
  | zero => exact h
  | succ count ih =>
      unfold passes
      split
      · exact h
      · have hafter := pass_keeps htransform (plan.unprocessed sweep) (hstart h)
        rw [startPass_eq]
        dsimp only
        generalize plan.pass (plan.unprocessed sweep) (plan.startPass sweep).1 = result at hafter
        obtain ⟨after, answer⟩ := result
        cases answer with
        | error error => exact hafter
        | ok _ => exact ih hafter

end Keeps

/-- A call for a layer caps its producers at numbers. -/
theorem transform_hasNumberCaps (id : Nat) {sweep : Sweep} (h : sweep.HasNumberCaps) :
    (plan.transform id sweep).1.HasNumberCaps := by
  unfold transform
  cases plan.network.layer? id with
  | none => exact h
  | some layer =>
      dsimp only
      split
      · exact h
      · have hafter := (derive_pushed plan layer sweep).hasNumberCaps (fun _ hcap => hcap.1) h
        generalize plan.derive layer sweep = result at hafter
        obtain ⟨after, scales⟩ := result
        cases scales with
        | some scales => exact hafter
        | none =>
            unfold scheduleRestart
            dsimp only
            split <;> exact hafter

theorem perform_hasNumberCaps (call : TableCall) (h : sweep.HasNumberCaps) :
    (call.perform plan sweep).1.HasNumberCaps := by
  cases call with
  | propagate propagator => exact h
  | run =>
      have hpasses (count : Nat) : (plan.passes count sweep).1.HasNumberCaps :=
        passes_keeps transform_hasNumberCaps (fun hsweep => hsweep) count h
      show (plan.run sweep).1.HasNumberCaps
      unfold SweepPlan.run
      split
      · exact h
      · exact hpasses _
  | startPass => exact h
  | transform id => exact transform_hasNumberCaps id h
  | convert converter id =>
      unfold TableCall.perform
      dsimp only
      split
      · exact h
      · split <;> exact h
  | replace table => exact h

theorem pushCap_pushed (start : Nat) : plan.Pushed (· = cap) sweep
    (plan.pushCap start cap consumer (sweep, false)).1 :=
  foldl_placeCap_pushed (sweep, false) fun _ hid {_} hlayer =>
    Network.stopsCaps_of_mem_frontier hid hlayer

/-- Whatever calls a sweep has been through, its caps are numbers. -/
theorem Reachable.hasNumberCaps (h : plan.Reachable sweep) : sweep.HasNumberCaps := by
  induction h with
  | start table =>
      intro id cap hcap
      simp [Sweep.cap?_start] at hcap
  | call call _ ih => exact perform_hasNumberCaps call ih
  | push _ hnumber ih =>
      exact (pushCap_pushed _).hasNumberCaps (fun _ heq => heq ▸ hnumber) ih

/-- Whatever calls a sweep has been through, its arrays have a place for each layer. -/
theorem Reachable.indexed (hbuilt : plan.network.Built) (hplan : plan.Ordered)
    (h : plan.Reachable sweep) : ∃ entries, sweep.Indexed plan.network.size entries := by
  induction h with
  | start table => exact ⟨_, .start plan.network table⟩
  | call call _ ih =>
      obtain ⟨entries, hindexed⟩ := ih
      exact (TableCall.perform?_eq hbuilt hplan hindexed call).2
  | push _ _ ih =>
      obtain ⟨entries, hindexed⟩ := ih
      exact ⟨entries, hindexed.framed (pushCap_pushed _).framed⟩

/-! ## Pushing a cap -/

/-- A search that works off its stack has the same result with more pops. -/
theorem search?_of_le {positions : Array Nat} {pops more : Nat} {stack : List Nat}
    {visited : Array Bool} (hle : pops ≤ more)
    (h : plan.search? positions cap consumer pops stack visited state = some result) :
    plan.search? positions cap consumer more stack visited state = some result := by
  induction pops generalizing more stack visited state with
  | zero =>
      cases stack with
      | nil =>
          unfold search? at h ⊢
          exact h
      | cons id stack => simp [search?] at h
  | succ pops ih =>
      cases stack with
      | nil =>
          unfold search? at h ⊢
          exact h
      | cons id stack =>
          obtain ⟨more, rfl⟩ : ∃ rest, more = rest + 1 := ⟨more - 1, by omega⟩
          have hrest : pops ≤ more := by omega
          unfold search? at h ⊢
          simp only [Option.bind_eq_bind, Option.bind_eq_some_iff] at h ⊢
          obtain ⟨seen, hseen, marked, hmarked, h⟩ := h
          refine ⟨seen, hseen, marked, hmarked, ?_⟩
          cases seen with
          | true => exact ih hrest h
          | false =>
              simp only [Bool.false_eq_true, if_false, Option.bind_eq_some_iff] at h ⊢
              obtain ⟨layer, hlayer, h⟩ := h
              refine ⟨layer, hlayer, ?_⟩
              split
              · rename_i hstops
                rw [if_pos hstops, Option.bind_eq_some_iff] at h
                obtain ⟨placed, hplaced, h⟩ := h
                exact Option.bind_eq_some_iff.2 ⟨placed, hplaced, ih hrest h⟩
              · rename_i hpasses
                rw [if_neg hpasses] at h
                exact ih hrest h

/-- Every configuration has a plan for a network that was built, in the order of the layers and with
their ids as positions. -/
theorem placedPlan?_of_built {network : Network} (hbuilt : network.Built) (config : Config) :
    config.placedPlan? network = some (.ok
      ({ network, order := List.range network.size, rule := config.scaleRule,
          defaultScale := config.defaultScale, precision := config.weightsPrecision,
          maxRestarts := config.maxRestarts }, .range network.size)) := by
  unfold Config.placedPlan?
  rw [hbuilt.wellFormed.order?_eq, hbuilt.wellFormed.topologicalOrder_eq]
  simp only [Option.bind_eq_bind, Option.bind_some, positions?_range]

/-- A cap is pushed from a layer, in a sweep that was reached by whatever calls, with a table that
has an entry for each layer. The search works off its stack: however many pops it is allowed, it has
a result once there are more of them than forward edges, and always the same one. It leaves each
reached layer that chooses its scale with the smaller of its cap and the new one, and every other cap
as it was. It notes one conflict with each graph input reached that had none with the consumer. It
answers whether some cap was lowered or placed for the first time, and if so, exactly the layers from
the first of these on have become unprocessed. -/
theorem pushCap_caps_frontier {config : Config} {network : Network} {positions : Array Nat}
    (hbuilt : network.Built) (hplan : config.placedPlan? network = some (.ok (plan, positions)))
    (hreachable : plan.Reachable sweep) (hentries : network.size ≤ sweep.table.size) {start : Nat}
    (hstart : start < network.size) (cap : Single) (consumer : Nat) :
    (∀ pops, network.edgeCount < pops →
        plan.search? positions cap consumer pops [start] (Array.replicate network.size false)
            (sweep, false) =
          some (plan.pushCap start cap consumer (sweep, false))) ∧
      plan.PlacesCap cap consumer (network.CapReaches start) sweep
        (plan.pushCap start cap consumer (sweep, false)) ∧
      plan.Unprocesses sweep (plan.pushCap start cap consumer (sweep, false)) := by
  rw [placedPlan?_of_built hbuilt] at hplan
  obtain ⟨rfl, rfl⟩ := Prod.mk.inj (Except.ok.inj (Option.some.inj hplan))
  have hordered := (sweepPlan_eq_ok hbuilt (sweepPlan_of_built hbuilt config)).1
  obtain ⟨entries, hindexed⟩ := hreachable.indexed hbuilt hordered
  have hplaces := hordered.pushCap_places start cap consumer hreachable.hasNumberCaps
    hindexed.caps_size
  refine ⟨fun pops hpops => ?_, hplaces, hplaces.unprocesses hordered hindexed.caps_size⟩
  refine search?_of_le hpops (hordered.search?_eq _ hindexed ?_ (.start _) ?_).1
  · rw [hindexed.table_size] at hentries
    simpa using ⟨hstart, hstart.trans_le hentries⟩
  · rw [Network.edgeCount_eq, List.length_singleton, Nat.add_comm]

/-- What a run of `crossed` leaves: layer four has a conflict with the left input only, and the
activation has the cap one. -/
def crossedSweep : Sweep := (crossedPlan.run (.start crossed crossedTable)).1

/-- From layer four of `crossed` a cap reaches both inputs and the activation. The conflict with the
left input is there already, the one with the right input is new, and the layers from the activation
on are derived again. -/
theorem crossed_caps_frontier :
    let half : Single := .ofRatio .single false 1 2
    let result := crossedPlan.pushCap 4 half 4 (crossedSweep, false)
    crossed.Built ∧ Config.placedPlan? {} crossed = some (.ok (crossedPlan, .range 5)) ∧
      crossedPlan.Reachable crossedSweep ∧ crossed.size ≤ crossedSweep.table.size ∧
      4 < crossed.size ∧
      crossedPlan.search? (.range 5) half 4 7 [4] (Array.replicate 5 false)
        (crossedSweep, false) = some result ∧
      crossedPlan.PlacesCap half 4 (crossed.CapReaches 4) crossedSweep result ∧
      crossedPlan.Unprocesses crossedSweep result ∧
      crossedSweep.cap? 2 = some (.ofNat .single 1) ∧ result.1.cap? 2 = some half ∧
      result.1.conflicts =
        crossedSweep.conflicts ++ [⟨4, 1, half, .ofNat .single 1⟩] ∧
      (List.range 5).map result.1.isProcessed = [true, true, false, false, false] := by
  intro half result
  have hplan : Config.placedPlan? {} crossed = some (.ok (crossedPlan, .range 5)) :=
    placedPlan?_of_built crossed_built {}
  have hreachable : crossedPlan.Reachable crossedSweep := .call .run (.start crossedTable)
  have hentries : crossed.size ≤ crossedSweep.table.size := by decide +kernel
  have hstart : 4 < crossed.size := by decide
  obtain ⟨hsearch, hplaces, hunprocesses⟩ := pushCap_caps_frontier crossed_built hplan hreachable
    hentries hstart half 4
  exact ⟨crossed_built, hplan, hreachable, hentries, hstart, hsearch 7 (by decide), hplaces,
    hunprocesses, by decide +kernel, by decide +kernel, by decide +kernel, by decide +kernel⟩

end SweepPlan

end LayerQuant
