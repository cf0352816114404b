import Mathlib
import LayerQuant.Pipeline.Conversion
import LayerQuant.Proofs.CheckedSweep

/-!
# Calls in any order

Who holds a sweep and a table may propagate ranges, run the sweep, derive single layers, convert
single layers, or go on with another table, in any order. Each call has a checked form, and a
sequence of calls in checked form is never without a result (`TableCall.performAll?_eq`), however
short the tables are. A layer without an entry is reported as unknown, and whoever reports an
unknown layer has changed nothing (`TableCall.unchanged_of_unknown`).
-/

namespace LayerQuant

/-- The sweep over a network that a configuration describes, and for each layer its position in the
order. -/
def Config.placedPlan? (config : Config) (network : Network) :
    Option (Except GraphError (SweepPlan × Array Nat)) := do
  match ← network.order? with
  | .error error => some (.error error)
  | .ok order =>
    let positions ← positions? network.size order
    let plan : SweepPlan :=
      { network, order, rule := config.scaleRule, defaultScale := config.defaultScale,
        precision := config.weightsPrecision, maxRestarts := config.maxRestarts }
    some (.ok (plan, positions))

/-- Converts a layer and notes it in the table. -/
def Converter.convert? (converter : Converter) (layer : Layer) (table : EdgeTable) :
    Option (Except Error (EdgeTable × ConvertedLayer)) := do
  if layer.id < table.size then
    let entry ← table.entry? layer.id
    let noted ← table.modify? layer.id (converter.convertEdges layer)
    some (.ok (noted, converter.convertLayer layer entry))
  else some (.error (.unknownLayer layer.id))

theorem Converter.convert?_eq (converter : Converter) (layer : Layer) (table : EdgeTable) :
    converter.convert? layer table = some (converter.convert layer table) := by
  unfold convert? convert
  by_cases hentry : layer.id < table.size
  · rw [if_pos hentry, if_pos hentry, EdgeTable.entry?_eq hentry, EdgeTable.modify?_eq hentry]
    rfl
  · rw [if_neg hentry, if_neg hentry]

namespace SweepPlan

/-! ## Layers that a sweep knows -/

variable {plan : SweepPlan} {sweep : Sweep} {layer : Layer} {id : Nat}

/-- A call for a layer with an entry knows the layer. -/
theorem transform_ne_unknownLayer (hlayer : plan.network.layer? id = some layer)
    (hentry : id < sweep.table.size) (other : Nat) :
    (plan.transform id sweep).2 ≠ .error (.unknownLayer other) := by
  rw [transform_eq hlayer hentry]
  cases (plan.derive layer sweep).2 with
  | some scales => simp
  | none =>
      unfold scheduleRestart
      dsimp only
      split <;> simp

theorem size_transform (hlayer : plan.network.layer? id = some layer)
    (hentry : id < sweep.table.size) :
    (plan.transform id sweep).1.table.size = sweep.table.size := by
  have htable := congrArg EdgeTable.size (derive_pushed plan layer sweep).framed.table
  rw [transform_eq hlayer hentry]
  cases (plan.derive layer sweep).2 with
  | some scales => exact (EdgeTable.size_modify ..).trans htable
  | none =>
      unfold scheduleRestart
      dsimp only
      split <;> exact htable

/-- If the table has an entry for each layer of the network, a pass knows all of its layers. -/
theorem pass_ne_unknownLayer (ids : List Nat) (hids : ∀ id ∈ ids, id < plan.network.size)
    (hsize : plan.network.size ≤ sweep.table.size) (other : Nat) :
    (plan.pass ids sweep).2 ≠ .error (.unknownLayer other) ∧
      (plan.pass ids sweep).1.table.size = sweep.table.size := by
  induction ids generalizing sweep with
  | nil => exact ⟨by simp [pass], rfl⟩
  | cons id rest ih =>
      have hid := hids id List.mem_cons_self
      obtain ⟨layer, hlayer⟩ := Network.exists_layer hid
      have hknown := transform_ne_unknownLayer hlayer (hid.trans_le hsize) other
      have hkept := size_transform hlayer (hid.trans_le hsize)
      unfold pass
      generalize plan.transform id sweep = result at hknown hkept
      obtain ⟨after, answer⟩ := result
      cases answer with
      | error error => exact ⟨hknown, hkept⟩
      | ok _ =>
          dsimp only
          split
          · exact ⟨by simp, hkept⟩
          · obtain ⟨hrest, hsame⟩ := ih (fun later hlater =>
              hids later (List.mem_cons_of_mem _ hlater)) (hsize.trans_eq hkept.symm)
            exact ⟨hrest, hsame.trans hkept⟩

theorem Ordered.passes_ne_unknownLayer (hplan : plan.Ordered) (count : Nat)
    (hsize : plan.network.size ≤ sweep.table.size) (other : Nat) :
    (plan.passes count sweep).2 ≠ .error (.unknownLayer other) := by
  induction count generalizing sweep with
  | zero => simp [passes]
  | succ count ih =>
      unfold passes
      split
      · simp
      · have hstart : plan.network.size ≤ (plan.startPass sweep).1.table.size := hsize
        obtain ⟨hknown, hkept⟩ :=
          pass_ne_unknownLayer _ (fun _ => hplan.lt_of_mem_unprocessed) hstart other
        rw [startPass_eq]
        dsimp only
        generalize plan.pass (plan.unprocessed sweep) (plan.startPass sweep).1 = result
          at hknown hkept
        obtain ⟨after, answer⟩ := result
        cases answer with
        | error error => exact hknown
        | ok _ => exact ih (hsize.trans_eq hkept.symm)

end SweepPlan

/-! ## Calls -/

/-- A call by someone who holds a sweep over a network and a table. Layers are given by their
ids. -/
inductive TableCall where
  | propagate (propagator : Propagator)
  | run
  /-- Lists the layers to derive. -/
  | startPass
  | transform (id : Nat)
  | convert (converter : Converter) (id : Nat)
  /-- Goes on with another table. -/
  | replace (table : EdgeTable)

namespace TableCall

/-- What a call that does not fail answers. -/
inductive Reply where
  | done
  | propagated (report : Propagation)
  | started (ids : List Nat)
  | converted (layer : ConvertedLayer)

/-- Makes a call. -/
def perform (plan : SweepPlan) : TableCall → Sweep → Sweep × Except Error Reply
  | .propagate propagator, sweep =>
    let (table, result) := propagator.propagate plan.network sweep.table
    ({ sweep with table }, result.map .propagated)
  | .run, sweep =>
    let (sweep, result) := plan.run sweep
    (sweep, result.map fun _ => .done)
  | .startPass, sweep =>
    let (sweep, ids) := plan.startPass sweep
    (sweep, .ok (.started ids))
  | .transform id, sweep =>
    let (sweep, result) := plan.transform id sweep
    (sweep, result.map fun _ => .done)
  | .convert converter id, sweep =>
    match plan.network.layer? id with
    | none => (sweep, .error (.unknownLayer id))
    | some layer =>
      match converter.convert layer sweep.table with
      | .error error => (sweep, .error error)
      | .ok (table, converted) => ({ sweep with table }, .ok (.converted converted))
  | .replace table, sweep => ({ sweep with table }, .ok .done)

/-- Makes a call with checked accesses. -/
def perform? (plan : SweepPlan) (positions : Array Nat) :
    TableCall → Sweep → Option (Sweep × Except Error Reply)
  | .propagate propagator, sweep => do
    let (table, result) ← propagator.propagate? plan.network sweep.table
    some ({ sweep with table }, result.map .propagated)
  | .run, sweep => do
    let (sweep, result) ← plan.run? positions sweep
    some (sweep, result.map fun _ => .done)
  | .startPass, sweep => do
    let (sweep, ids) ← plan.startPass? sweep
    some (sweep, .ok (.started ids))
  | .transform id, sweep => do
    let (sweep, result) ← plan.transform? positions id sweep
    some (sweep, result.map fun _ => .done)
  | .convert converter id, sweep =>
    match plan.network.layer? id with
    | none => some (sweep, .error (.unknownLayer id))
    | some layer => do
      match ← converter.convert? layer sweep.table with
      | .error error => some (sweep, .error error)
      | .ok (table, converted) => some ({ sweep with table }, .ok (.converted converted))
  | .replace table, sweep => some ({ sweep with table }, .ok .done)

/-- Makes calls one after the other and collects the answers. -/
def performAll (plan : SweepPlan) : List TableCall → Sweep → Sweep × List (Except Error Reply)
  | [], sweep => (sweep, [])
  | call :: rest, sweep =>
    let (sweep, answer) := call.perform plan sweep
    let (sweep, answers) := performAll plan rest sweep
    (sweep, answer :: answers)

/-- Makes calls with checked accesses one after the other and collects the answers. -/
def performAll? (plan : SweepPlan) (positions : Array Nat) :
    List TableCall → Sweep → Option (Sweep × List (Except Error Reply))
  | [], sweep => some (sweep, [])
  | call :: rest, sweep => do
    let (sweep, answer) ← call.perform? plan positions sweep
    let (sweep, answers) ← performAll? plan positions rest sweep
    some (sweep, answer :: answers)

variable {plan : SweepPlan} {sweep : Sweep} {entries id : Nat}

/-- A call is in range and leaves the arrays of the sweep with a place for each layer, whatever
becomes of the table. -/
theorem perform?_eq (hbuilt : plan.network.Built) (hplan : plan.Ordered)
    (h : sweep.Indexed plan.network.size entries) (call : TableCall) :
    call.perform? plan (.range plan.network.size) sweep = some (call.perform plan sweep) ∧
      ∃ entries, (call.perform plan sweep).1.Indexed plan.network.size entries := by
  cases call with
  | propagate propagator =>
      refine ⟨?_, _, h.processed_size, h.caps_size, rfl⟩
      unfold perform? perform
      simp only [Option.bind_eq_bind, Propagator.propagate?_eq hbuilt, Option.bind_some]
  | run =>
      obtain ⟨hrun, hindexed⟩ := hplan.run?_eq h
      refine ⟨?_, _, hindexed⟩
      unfold perform? perform
      simp only [Option.bind_eq_bind, hrun, Option.bind_some]
  | startPass =>
      refine ⟨?_, _, h.processed_size, h.caps_size, rfl⟩
      unfold perform? perform
      simp only [Option.bind_eq_bind, hplan.startPass?_eq h, Option.bind_some]
  | transform id =>
      obtain ⟨htransform, hindexed⟩ := hplan.transform?_eq h id
      refine ⟨?_, _, hindexed⟩
      unfold perform? perform
      simp only [Option.bind_eq_bind, htransform, Option.bind_some]
  | convert converter id =>
      cases hlayer : plan.network.layer? id with
      | none =>
          simp only [perform?, perform, hlayer, true_and]
          exact ⟨_, h⟩
      | some layer =>
          simp only [perform?, perform, hlayer, Option.bind_eq_bind, Converter.convert?_eq,
            Option.bind_some]
          cases converter.convert layer sweep.table with
          | error error => exact ⟨rfl, _, h⟩
          | ok converted => exact ⟨rfl, _, h.processed_size, h.caps_size, rfl⟩
  | replace table => exact ⟨rfl, _, h.processed_size, h.caps_size, rfl⟩

/-- Calls in any order are in range. -/
theorem performAll?_eq (hbuilt : plan.network.Built) (hplan : plan.Ordered)
    (calls : List TableCall) (h : sweep.Indexed plan.network.size entries) :
    performAll? plan (.range plan.network.size) calls sweep =
      some (performAll plan calls sweep) := by
  induction calls generalizing sweep entries with
  | nil => rfl
  | cons call rest ih =>
      obtain ⟨hcall, _, hnext⟩ := perform?_eq hbuilt hplan h call
      unfold performAll? performAll
      simp only [Option.bind_eq_bind, hcall, Option.bind_some, ih hnext]

/-! ## Unknown layers -/

/-- A layer that the network or the table does not have is unknown to the calls that are about it
alone. -/
theorem perform_of_missing (hformed : plan.network.WellFormed)
    (hmissing : plan.network.size ≤ id ∨ sweep.table.size ≤ id) :
    (transform id).perform plan sweep = (sweep, .error (.unknownLayer id)) ∧
      ∀ converter, (convert converter id).perform plan sweep =
        (sweep, .error (.unknownLayer id)) := by
  cases hlayer : plan.network.layer? id with
  | none => simp [perform, SweepPlan.transform, hlayer, Except.map]
  | some layer =>
      have hshort := hmissing.resolve_left (Nat.not_le.2 (Network.lt_size hlayer))
      have hentry : ¬ layer.id < sweep.table.size := by
        rw [hformed.id_eq hlayer]
        exact Nat.not_lt.2 hshort
      refine ⟨by simp [perform, SweepPlan.transform, hlayer, hshort, Except.map], ?_⟩
      intro converter
      have hconvert : converter.convert layer sweep.table = .error (.unknownLayer layer.id) :=
        if_neg hentry
      simp only [perform, hlayer, hconvert, hformed.id_eq hlayer]

/-- A table that is too short is noticed at once by the calls that are about the whole network. -/
theorem perform_of_short (hshort : sweep.table.size < plan.network.size) :
    run.perform plan sweep = (sweep, .error (.unknownLayer sweep.table.size)) ∧
      ∀ propagator, (propagate propagator).perform plan sweep =
        (sweep, .error (.unknownLayer sweep.table.size)) := by
  refine ⟨?_, fun propagator => ?_⟩
  · simp [perform, SweepPlan.run, hshort, Except.map]
  · simp [perform, Propagator.propagate, hshort, Except.map]

/-- An error is not changed by what is done with a result. -/
theorem error_of_map {ε α β : Type} {result : Except ε α} {f : α → β} {error : ε}
    (h : result.map f = .error error) : result = .error error := by
  cases result with
  | error other => simpa [Except.map] using h
  | ok _ => cases h

/-- Whoever reports an unknown layer has changed nothing, and the network or the table does not have
the layer. -/
theorem unchanged_of_unknown (hbuilt : plan.network.Built) (hplan : plan.Ordered)
    {call : TableCall} (h : (call.perform plan sweep).2 = .error (.unknownLayer id)) :
    (call.perform plan sweep).1 = sweep ∧
      (plan.network.size ≤ id ∨ sweep.table.size ≤ id) := by
  have hself {other : Nat} {answer : Sweep × Except Error Reply}
      (hanswer : answer = (sweep, .error (.unknownLayer other)))
      (hother : plan.network.size ≤ other ∨ sweep.table.size ≤ other)
      (herror : answer.2 = .error (.unknownLayer id)) :
      answer.1 = sweep ∧ (plan.network.size ≤ id ∨ sweep.table.size ≤ id) := by
    subst hanswer
    obtain rfl : other = id := by simpa using herror
    exact ⟨rfl, hother⟩
  cases call with
  | propagate propagator =>
      by_cases hshort : sweep.table.size < plan.network.size
      · exact hself ((perform_of_short hshort).2 propagator) (Or.inr le_rfl) h
      · have herror : (propagator.propagate plan.network sweep.table).2 =
            .error (.unknownLayer id) := error_of_map h
        rw [Propagator.propagate_eq hbuilt (Nat.le_of_not_lt hshort)] at herror
        exact absurd herror (Propagator.conclude_ne_unknownLayer _ id)
  | run =>
      by_cases hshort : sweep.table.size < plan.network.size
      · exact hself (perform_of_short hshort).1 (Or.inr le_rfl) h
      · have herror : (plan.run sweep).2 = .error (.unknownLayer id) := error_of_map h
        unfold SweepPlan.run at herror
        rw [if_neg hshort] at herror
        exact absurd herror (hplan.passes_ne_unknownLayer _ (Nat.le_of_not_lt hshort) id)
  | startPass => cases h
  | transform own =>
      by_cases hmissing : plan.network.size ≤ own ∨ sweep.table.size ≤ own
      · exact hself (perform_of_missing hplan.formed hmissing).1 hmissing h
      · rw [not_or, Nat.not_le, Nat.not_le] at hmissing
        obtain ⟨layer, hlayer⟩ := Network.exists_layer hmissing.1
        have herror : (plan.transform own sweep).2 = .error (.unknownLayer id) := error_of_map h
        exact absurd herror (SweepPlan.transform_ne_unknownLayer hlayer hmissing.2 id)
  | convert converter own =>
      by_cases hmissing : plan.network.size ≤ own ∨ sweep.table.size ≤ own
      · exact hself ((perform_of_missing hplan.formed hmissing).2 converter) hmissing h
      · rw [not_or, Nat.not_le, Nat.not_le] at hmissing
        obtain ⟨layer, hlayer⟩ := Network.exists_layer hmissing.1
        have hentry : layer.id < sweep.table.size := by
          rw [hplan.formed.id_eq hlayer]
          exact hmissing.2
        simp [perform, Converter.convert, hlayer, hentry] at h
  | replace table => cases h

/-- On a network that was built, a sweep is set up and any calls are made in any order, with tables
of any length, without an access out of range: the checked forms have the results of the forms
without checks. Calls about a layer that the network or the table does not have report it as unknown,
and calls about the whole network do so at once if the table is too short. Whoever reports an unknown
layer has changed nothing. -/
theorem calls_in_range {network : Network} (hbuilt : network.Built) (config : Config) :
    ∃ plan positions, config.sweepPlan network = .ok plan ∧
      config.placedPlan? network = some (.ok (plan, positions)) ∧
      (∀ table calls, performAll? plan positions calls (.start network table) =
        some (performAll plan calls (.start network table))) ∧
      (∀ (sweep : Sweep) (id : Nat), network.size ≤ id ∨ sweep.table.size ≤ id →
        (transform id).perform plan sweep = (sweep, .error (.unknownLayer id)) ∧
          ∀ converter, (convert converter id).perform plan sweep =
            (sweep, .error (.unknownLayer id))) ∧
      (∀ sweep : Sweep, sweep.table.size < network.size →
        run.perform plan sweep = (sweep, .error (.unknownLayer sweep.table.size)) ∧
          ∀ propagator, (propagate propagator).perform plan sweep =
            (sweep, .error (.unknownLayer sweep.table.size))) ∧
      ∀ (call : TableCall) (sweep : Sweep) (id : Nat),
        (call.perform plan sweep).2 = .error (.unknownLayer id) →
          (call.perform plan sweep).1 = sweep ∧
            (network.size ≤ id ∨ sweep.table.size ≤ id) := by
  have hplan := SweepPlan.sweepPlan_of_built hbuilt config
  have hordered := (SweepPlan.sweepPlan_eq_ok hbuilt hplan).1
  refine ⟨_, .range network.size, hplan, ?_, fun table calls => ?_, ?_, ?_, ?_⟩
  · unfold Config.placedPlan?
    rw [hbuilt.wellFormed.order?_eq, hbuilt.wellFormed.topologicalOrder_eq]
    simp only [Option.bind_eq_bind, Option.bind_some, positions?_range]
  · exact performAll?_eq hbuilt hordered calls (Sweep.Indexed.start network table)
  · exact fun sweep id hmissing => perform_of_missing hbuilt.wellFormed hmissing
  · exact fun sweep hshort => perform_of_short hshort
  · exact fun call sweep id h => unchanged_of_unknown hbuilt hordered h

/-- The first copy in the cycle reads the second one, one step later, for which the table has no
entry. -/
theorem cycle_calls_in_range :
    Propagator.cycle.Built ∧
      ∃ plan positions, Config.placedPlan? {} Propagator.cycle = some (.ok (plan, positions)) ∧
        (∀ calls, performAll? plan positions calls (.start Propagator.cycle (.empty 2)) =
          some (performAll plan calls (.start Propagator.cycle (.empty 2)))) ∧
        run.perform plan (.start Propagator.cycle (.empty 2)) =
          (.start Propagator.cycle (.empty 2), .error (.unknownLayer 2)) ∧
        (transform 2).perform plan (.start Propagator.cycle (.empty 2)) =
          (.start Propagator.cycle (.empty 2), .error (.unknownLayer 2)) := by
  obtain ⟨plan, positions, -, hplaced, hcalls, hmissing, hshort, -⟩ :=
    calls_in_range Propagator.cycle_built {}
  exact ⟨Propagator.cycle_built, plan, positions, hplaced, hcalls (.empty 2),
    (hshort _ (by decide)).1, (hmissing _ 2 (Or.inr (by decide))).1⟩

end TableCall

end LayerQuant
