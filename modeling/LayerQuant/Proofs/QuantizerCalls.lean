import Mathlib
import LayerQuant.Pipeline.Quantizer
import LayerQuant.Proofs.Construction
import LayerQuant.Proofs.InPlace

/-!
# Calls on one quantizer

A quantizer changes in place while a call is under way: it goes from stage to stage, and a step
that fails leaves it where it is (`execute`). What the steps come to for the caller does not depend
on the stage, and a call that succeeds takes exactly as many as there are stages on the way
(`Follows`). So a call leaves nothing behind but how it ended: see `calls_independent`.
-/

namespace LayerQuant

variable {σ α β : Type}

/-! ## Callbacks -/

namespace Revision

/-- Puts a question to the caller, which may change the network and what the caller remembers. -/
def ask (revise : Revision σ) (first : Bool) (network : Network) : InPlace Error σ Network :=
  .step fun state => (revise first network state).swap

/-- The same callback with a list of the questions that were put to it. -/
def noted (revise : Revision σ) : Revision (σ × List (Bool × Network)) :=
  fun first network (state, questions) =>
    let (state, answer) := revise first network state
    ((state, questions ++ [(first, network)]), answer)

/-- A callback that leaves the network as it is. -/
def leave : Revision σ := fun _ network state => (state, .ok network)

end Revision

namespace Config

/-- The ranges that a quantization goes on with: those of the given statistics, if there are any. -/
def rangesFrom (config : Config) (network : Network) (table : EdgeTable) :
    Option Store → Except Error (EdgeTable × Nat × Propagation)
  | some store => table.calibrate config network store
  | none => .ok (table, 0, {})

/-- What a quantization comes to for its caller. -/
def request (config : Config) (network : Network) (scales : List Single) (store : Option Store)
    (revise : Revision σ) : InPlace Error σ Quantized := do
  MonadExcept.ofExcept (config.validate.mapError fun error => .configuration (.unusable error))
  let copy ← revise.ask true network
  let network ← revise.ask false copy
  MonadExcept.ofExcept (config.quantizeFinal network scales store)

theorem perform_request (config : Config) (network : Network) (scales : List Single)
    (store : Option Store) (revise : Revision σ) (state : σ) :
    (config.request network scales store revise).perform state =
      ((config.quantize network scales store revise state).2,
        (config.quantize network scales store revise state).1) := by
  unfold request quantize
  rw [InPlace.perform_bind, InPlace.perform_ofExcept]
  cases config.validate with
  | error error => rfl
  | ok =>
      simp only [Except.mapError, InPlace.perform_bind, InPlace.perform_step, Revision.ask]
      rcases hfirst : revise true network state with ⟨between, error | copy⟩
      · rfl
      rcases hsecond : revise false copy between with ⟨last, error | network⟩
      · simp only [Prod.swap_prod_mk, hsecond]
      · simp only [Prod.swap_prod_mk, hsecond, InPlace.perform_ofExcept]

/-- The questions that a quantization puts to its caller: none if the configuration is not usable,
the first one about the network as it was given, and the second one about what the first one has
left, unless that has failed. -/
def questions (config : Config) (network : Network) (revise : Revision σ) (state : σ) :
    List (Bool × Network) :=
  match config.validate with
  | .error _ => []
  | .ok () =>
    match (revise true network state).2 with
    | .error _ => [(true, network)]
    | .ok revised => [(true, network), (false, revised)]

/-- Noting the questions changes nothing else. -/
theorem quantize_noted (config : Config) (network : Network) (scales : List Single)
    (store : Option Store) (revise : Revision σ) (state : σ) :
    config.quantize network scales store revise.noted (state, []) =
      (((config.quantize network scales store revise state).1,
        config.questions network revise state),
        (config.quantize network scales store revise state).2) := by
  unfold quantize questions
  cases config.validate with
  | error error => rfl
  | ok =>
      rcases hfirst : revise true network state with ⟨between, error | copy⟩
      · simp only [Revision.noted, hfirst, List.nil_append]
      rcases hsecond : revise false copy between with ⟨last, error | network⟩
      · simp only [Revision.noted, hfirst, hsecond, List.nil_append, List.cons_append]
      · simp only [Revision.noted, hfirst, hsecond, List.nil_append, List.cons_append]

theorem quantizeFinal_eq (config : Config) (network : Network) (scales : List Single)
    (store : Option Store) :
    config.quantizeFinal network scales store = (do
      let table ← (EdgeTable.empty network.size).seedInputs network scales
      let (table, seededLayers, propagation) ← config.rangesFrom network table store
      let plan ← (config.sweepPlan network).mapError .graph
      let (sweep, finished) := plan.run (.start network table)
      finished
      let (table, layers) ← config.converter.convertIds network plan.order sweep.table
      pure
        { network, table, layers
          report :=
            { layers := network.layerScales table, calibrated := store.isSome, seededLayers
              propagationSteps := propagation.steps, restarts := sweep.restarts
              anomalies := propagation.anomalies, conflicts := sweep.conflicts } }) := by
  cases store <;> rfl

end Config

namespace Quantizer

/-! ## A call from stage to stage -/

/-- A program on a quantizer and on what the caller remembers. -/
abbrev Attempt (σ α : Type) := InPlace Error (Quantizer × σ) α

/-- Where a call takes its statistics from. -/
inductive Calibration where
  | configured
  | provided (store : Option Store)

/-- The statistics of a call. -/
def Calibration.store (calibration : Calibration) (folder : Folder) (quantizer : Quantizer) :
    Option Store :=
  match calibration with
  | configured => quantizer.configuredStore folder
  | provided store => store

namespace Attempt

/-- Reads a datum of the quantizer. -/
def read (datum : Quantizer → α) : Attempt σ α := do
  return datum (← get).1

/-- Goes on to the next stage. -/
def advance : Attempt σ Unit :=
  modify fun (quantizer, state) => ({ quantizer with stage := quantizer.stage.next }, state)

/-- Forgets the last call. -/
def clear : Attempt σ Unit := modify fun (quantizer, state) => (quantizer.reset, state)

/-- Notes that the call has failed. -/
def fail (error : Error) : Attempt σ Unit :=
  modify fun (quantizer, state) =>
    ({ quantizer with stage := .failed, error := some error.message }, state)

/-- Leaves the quantizer aside. -/
def aside (program : InPlace Error σ α) : Attempt σ α :=
  .step fun (quantizer, state) =>
    let (result, next) := program.perform state
    (result, quantizer, next)

end Attempt

open Attempt

/-- The stages of a call, the first of which is reached when the configuration has been checked. -/
def execute (folder : Folder) (network : Network) (scales : List Single)
    (calibration : Calibration) (revise : Revision σ) : Attempt σ Quantized := do
  let config ← read (·.config)
  MonadExcept.ofExcept (config.validate.mapError fun error => .configuration (.unusable error))
  -- The network is copied, and the caller has the copy.
  advance
  let copy ← aside (revise.ask true network)
  let network ← aside (revise.ask false copy)
  -- The inputs get their scales.
  advance
  let table ← MonadExcept.ofExcept ((EdgeTable.empty network.size).seedInputs network scales)
  -- Calibration is loaded, then its ranges are propagated.
  advance
  let store ← read (calibration.store folder)
  advance
  let (table, seededLayers, propagation) ←
    MonadExcept.ofExcept (config.rangesFrom network table store)
  -- Scales are derived.
  advance
  let plan ← MonadExcept.ofExcept ((config.sweepPlan network).mapError .graph)
  let (sweep, finished) := plan.run (.start network table)
  MonadExcept.ofExcept finished
  -- Parameters are converted.
  advance
  let (table, layers) ←
    MonadExcept.ofExcept (config.converter.convertIds network plan.order sweep.table)
  pure
    { network, table, layers
      report :=
        { layers := network.layerScales table, calibrated := store.isSome, seededLayers
          propagationSteps := propagation.steps, restarts := sweep.restarts
          anomalies := propagation.anomalies, conflicts := sweep.conflicts } }

/-- A call: its stages, and what the quantizer notes of their end. -/
def run (folder : Folder) (network : Network) (scales : List Single) (calibration : Calibration)
    (revise : Revision σ) : Attempt σ Quantized := do
  clear
  match ← (execute folder network scales calibration revise).observe with
  | .ok quantized => do
    advance
    return quantized
  | .error error => do
    fail error
    throw error

/-- The program comes to what `plain` comes to for the caller. It changes nothing of a quantizer
with the configuration but its stage, and if it succeeds it has gone on by so many stages. -/
def Follows (config : Config) (stages : Nat) (program : Attempt σ α)
    (plain : InPlace Error σ α) : Prop :=
  ∀ (quantizer : Quantizer) (state : σ), quantizer.config = config →
    ∃ stage, program.perform (quantizer, state) =
        ((plain.perform state).1, { quantizer with stage }, (plain.perform state).2) ∧
      ∀ a, (plain.perform state).1 = .ok a → stage = Stage.next^[stages] quantizer.stage

section Follows

variable {config : Config} {stages : Nat} {program : Attempt σ α} {plain : InPlace Error σ α}

theorem follows_aside (plain : InPlace Error σ α) : Follows config 0 (aside plain) plain :=
  fun quantizer _ _ => ⟨quantizer.stage, rfl, fun _ _ => rfl⟩

theorem follows_ofExcept (result : Except Error α) :
    Follows (σ := σ) config 0 (MonadExcept.ofExcept result) (MonadExcept.ofExcept result) := by
  intro quantizer state _
  refine ⟨quantizer.stage, ?_, fun _ _ => rfl⟩
  rw [InPlace.perform_ofExcept, InPlace.perform_ofExcept]

/-- A step that stays in its stage and a program after it follow the two plain programs. -/
theorem Follows.andThen {rest : α → Attempt σ β} {later : α → InPlace Error σ β}
    (h : Follows config 0 program plain) (hrest : ∀ a, Follows config stages (rest a) (later a)) :
    Follows config stages (program >>= rest) (plain >>= later) := by
  intro quantizer state hconfig
  obtain ⟨stage, hperform, hstage⟩ := h quantizer state hconfig
  rw [InPlace.perform_bind, InPlace.perform_bind, hperform]
  cases hplain : plain.perform state with
  | mk result next =>
      rw [hplain] at hstage
      cases result with
      | error error => exact ⟨stage, rfl, fun _ hok => by cases hok⟩
      | ok a =>
          obtain rfl : stage = quantizer.stage := hstage a rfl
          exact hrest a quantizer next hconfig

/-- A step whose result only depends on what it is given, in the same way. -/
theorem Follows.step {result : Except Error α} {rest : α → Attempt σ β}
    {later : α → Except Error β}
    (hrest : ∀ a, Follows config stages (rest a) (MonadExcept.ofExcept (later a))) :
    Follows config stages (MonadExcept.ofExcept result >>= rest)
      (MonadExcept.ofExcept (result >>= later)) := by
  have hbind : (MonadExcept.ofExcept (result >>= later) : InPlace Error σ β) =
      MonadExcept.ofExcept result >>= fun a => MonadExcept.ofExcept (later a) := by
    cases result <;> rfl
  rw [hbind]
  exact (follows_ofExcept result).andThen hrest

/-- What is read of a quantizer depends on its configuration only, and goes into the rest. -/
theorem Follows.read {datum : Quantizer → β} {value : β} {rest : β → Attempt σ α}
    (hdatum : ∀ quantizer : Quantizer, quantizer.config = config → datum quantizer = value)
    (h : Follows config stages (rest value) plain) :
    Follows config stages (Attempt.read datum >>= rest) plain := by
  intro quantizer state hconfig
  have hread : (Attempt.read datum >>= rest).perform (quantizer, state) =
      (rest value).perform (quantizer, state) := by
    rw [← hdatum quantizer hconfig]
    unfold Attempt.read
    simp only [InPlace.perform_bind, InPlace.perform_get, InPlace.perform_pure]
  rw [hread]
  exact h quantizer state hconfig

/-- Going on to the next stage is one stage more. -/
theorem Follows.advance (h : Follows config stages program plain) :
    Follows config (stages + 1) (Attempt.advance >>= fun _ => program) plain := by
  intro quantizer state hconfig
  exact h { quantizer with stage := quantizer.stage.next } state hconfig

end Follows

/-- The stages come to what a quantization comes to, and there are six of them. -/
theorem follows_execute (config : Config) (folder : Folder) (network : Network)
    (scales : List Single) (calibration : Calibration) (revise : Revision σ) :
    Follows config 6 (execute folder network scales calibration revise)
      (config.request network scales (calibration.store folder { config }) revise) := by
  unfold execute Config.request
  refine Follows.read (fun quantizer hconfig => hconfig) ?_
  refine (follows_ofExcept _).andThen fun _ => Follows.advance ?_
  refine (follows_aside _).andThen fun copy => (follows_aside _).andThen fun final => ?_
  rw [Config.quantizeFinal_eq]
  refine Follows.advance (Follows.step fun given => ?_)
  have hstore : ∀ quantizer : Quantizer, quantizer.config = config →
      calibration.store folder quantizer = calibration.store folder { config } := by
    intro quantizer hconfig
    cases calibration with
    | configured =>
        show quantizer.configuredStore folder = _
        unfold configuredStore
        rw [hconfig]
        rfl
    | provided store => rfl
  refine Follows.advance (Follows.read hstore (Follows.advance ?_))
  refine Follows.step fun ⟨ranged, seededLayers, propagation⟩ => Follows.advance ?_
  refine Follows.step fun plan => Follows.step fun _ => Follows.advance ?_
  exact Follows.step fun ⟨table, layers⟩ => follows_ofExcept (.ok _)

/-- Whatever the quantizer has been through, a call returns what a quantization by its configuration
comes to, and the quantizer has noted just that. -/
theorem perform_run (quantizer : Quantizer) (folder : Folder) (network : Network)
    (scales : List Single) (calibration : Calibration) (revise : Revision σ) (state : σ) :
    (run folder network scales calibration revise).perform (quantizer, state) =
      let (next, result) := quantizer.config.quantize network scales
        (calibration.store folder { config := quantizer.config }) revise state
      (result, quantizer.record result, next) := by
  obtain ⟨stage, hperform, hstage⟩ := follows_execute quantizer.config folder network scales
    calibration revise quantizer.reset state rfl
  rw [Config.perform_request] at hperform hstage
  have hclear : (clear : Attempt σ Unit).perform (quantizer, state) =
      (.ok (), quantizer.reset, state) := rfl
  unfold run
  rw [InPlace.perform_bind, hclear]
  dsimp only
  rw [InPlace.perform_bind, InPlace.perform_observe, hperform]
  cases hresult : quantizer.config.quantize network scales
      (calibration.store folder { config := quantizer.config }) revise state with
  | mk next result =>
      rw [hresult] at hstage
      cases result with
      | error error => rfl
      | ok quantized =>
          -- Six stages lead from the idle one to the last one before the end.
          obtain rfl : stage = .quantizing := hstage quantized rfl
          rfl

/-! ## Requests -/

/-- A call that quantizes. -/
inductive Request (σ : Type) where
  | quantize (network : Network) (scales : List Single)
  | quantizeSingle (network : Network) (scale : Single)
  | quantizeWithStats (network : Network) (scales : List Single) (store : Option Store)
  | quantizeWithCallback (network : Network) (scales : List Single) (revise : Revision σ)

namespace Request

/-- A request in place. -/
def attempt (folder : Folder) : Request σ → Attempt σ Quantized
  | quantize network scales => run folder network scales .configured .leave
  | quantizeSingle network scale => run folder network [scale] .configured .leave
  | quantizeWithStats network scales store => run folder network scales (.provided store) .leave
  | quantizeWithCallback network scales revise => run folder network scales .configured revise

/-- The network that is to be quantized. -/
def network : Request σ → Network
  | quantize network _ | quantizeSingle network _ | quantizeWithStats network _ _
  | quantizeWithCallback network _ _ => network

/-- The scales of the inputs. -/
def scales : Request σ → List Single
  | quantize _ scales | quantizeWithStats _ scales _ | quantizeWithCallback _ scales _ => scales
  | quantizeSingle _ scale => [scale]

/-- Where the statistics come from. -/
def calibration : Request σ → Calibration
  | quantize _ _ | quantizeSingle _ _ | quantizeWithCallback _ _ _ => .configured
  | quantizeWithStats _ _ store => .provided store

/-- The callback, if there is one, and otherwise one that leaves the network as it is. -/
def revision : Request σ → Revision σ
  | quantize _ _ | quantizeSingle _ _ | quantizeWithStats _ _ _ => .leave
  | quantizeWithCallback _ _ revise => revise

theorem attempt_eq (request : Request σ) (folder : Folder) :
    request.attempt folder =
      run folder request.network request.scales request.calibration request.revision := by
  cases request <;> rfl

/-- What the quantizer makes of a request: the result, the quantizer after it, and what the caller
remembers. -/
def answer (folder : Folder) (quantizer : Quantizer) (state : σ) :
    Request σ → Except Error Quantized × Quantizer × σ
  | quantize network scales =>
    let (next, result) := quantizer.quantize folder network scales
    (result, next, state)
  | quantizeSingle network scale =>
    let (next, result) := quantizer.quantizeSingle folder network scale
    (result, next, state)
  | quantizeWithStats network scales store =>
    let (next, result) := quantizer.quantizeWithStats network scales store
    (result, next, state)
  | quantizeWithCallback network scales revise =>
    let (next, state, result) := quantizer.quantizeWithCallback folder network scales revise state
    (result, next, state)

/-- Without a callback the caller remembers what it did. -/
theorem quantize_leave (config : Config) (network : Network) (scales : List Single)
    (store : Option Store) (state : σ) :
    config.quantize network scales store .leave state =
      (state, (config.quantize network scales store noRevision ()).2) := by
  unfold Config.quantize
  cases config.validate <;> rfl

/-- A request in place does what the quantizer makes of it. -/
theorem perform_attempt (request : Request σ) (folder : Folder) (quantizer : Quantizer)
    (state : σ) :
    (request.attempt folder).perform (quantizer, state) =
      request.answer folder quantizer state := by
  rw [attempt_eq, perform_run]
  cases request with
  | quantize | quantizeSingle | quantizeWithStats =>
      unfold revision
      rw [quantize_leave]
      rfl
  | quantizeWithCallback => rfl

end Request

/-- A call on a quantizer. -/
inductive Call (σ : Type) where
  | request (request : Request σ)
  | reset

/-- What a call leaves of a quantizer and of what the caller remembers. -/
def Call.leaves (folder : Folder) (held : Quantizer × σ) : Call σ → Quantizer × σ
  | request asked => ((asked.attempt folder).perform held).2
  | reset => (held.1.reset, held.2)

/-- What calls leave one after the other, each with the files that it finds. -/
def afterCalls (history : List (Folder × Call σ)) (held : Quantizer × σ) : Quantizer × σ :=
  history.foldl (fun held (folder, call) => call.leaves folder held) held

/-- The status of the quantizer is that of a call with the given result. -/
structure Tells (quantizer : Quantizer) (result : Except Error Quantized) : Prop where
  complete : ∀ quantized, result = .ok quantized →
    quantizer.stage = .complete ∧ quantizer.error = none
  failed : ∀ error, result = .error error →
    quantizer.stage = .failed ∧ quantizer.error = some error.message

theorem tells_record (quantizer : Quantizer) (result : Except Error Quantized) :
    (quantizer.record result).Tells result := by
  cases result with
  | ok quantized => exact ⟨fun _ _ => ⟨rfl, rfl⟩, fun _ herror => by cases herror⟩
  | error error =>
      refine ⟨fun _ hok => (by cases hok), fun other hother => ?_⟩
      obtain rfl := Except.error.inj hother
      exact ⟨rfl, rfl⟩

/-- The quantizer is not under way. -/
structure Rests (config : Config) (quantizer : Quantizer) : Prop where
  config_eq : quantizer.config = config
  inactive : quantizer.stage.isActive = false

theorem Rests.record {config : Config} {quantizer : Quantizer} (h : Rests config quantizer)
    (result : Except Error Quantized) : Rests config (quantizer.record result) := by
  cases result <;> exact ⟨h.config_eq, rfl⟩

/-- A request is answered by the configuration alone, and the quantizer notes the answer. -/
theorem Request.perform_of_config (request : Request σ) (folder : Folder) (config : Config)
    (state : σ) : ∃ result next, ∀ quantizer : Quantizer, quantizer.config = config →
      (request.attempt folder).perform (quantizer, state) =
        (result, quantizer.record result, next) := by
  let store := request.calibration.store folder { config }
  refine ⟨(config.quantize request.network request.scales store request.revision state).2,
    (config.quantize request.network request.scales store request.revision state).1, ?_⟩
  rintro quantizer rfl
  rw [request.attempt_eq]
  exact perform_run quantizer folder request.network request.scales request.calibration
    request.revision state

/-- A quantizer rests after every call. -/
theorem Rests.afterCalls {config : Config} {quantizer : Quantizer} (h : Rests config quantizer)
    (history : List (Folder × Call σ)) (state : σ) :
    Rests config (afterCalls history (quantizer, state)).1 := by
  induction history generalizing quantizer state with
  | nil => exact h
  | cons entry later ih =>
      obtain ⟨folder, call⟩ := entry
      show Rests config (Quantizer.afterCalls later (call.leaves folder (quantizer, state))).1
      cases call with
      | reset =>
          have hreset : Rests config quantizer.reset := ⟨h.config_eq, rfl⟩
          exact ih hreset state
      | request asked =>
          obtain ⟨result, next, hperform⟩ := asked.perform_of_config folder config state
          have hleaves : (Call.request asked).leaves folder (quantizer, state) =
              (quantizer.record result, next) :=
            congrArg Prod.snd (hperform quantizer h.config_eq)
          rw [hleaves]
          exact ih (h.record result) next

/-- Whatever calls a quantizer has answered, each with the files of its time, and however they
ended: it is at no stage in between, and it answers the next request as a fresh quantizer with the
same configuration does. The stages of the request come to what the quantizer makes of it as a
whole. Its status then tells how the request ended, and its error is the wording of the one
returned. A callback is asked the questions of its request and no others, and listing them changes
nothing. -/
theorem calls_independent (config : Config) (history : List (Folder × Call σ)) (state : σ)
    (folder : Folder) (request : Request σ) :
    let held := afterCalls history ({ config }, state)
    held.1.stage.isActive = false ∧
      (request.attempt folder).perform held = request.answer folder held.1 held.2 ∧
      (request.attempt folder).perform held =
        (request.attempt folder).perform ({ config }, held.2) ∧
      ((request.attempt folder).perform held).2.1.Tells
        ((request.attempt folder).perform held).1 ∧
      ∀ network scales (revise : Revision σ),
        ((Request.quantizeWithCallback network scales revise.noted).attempt folder).perform
            (held.1, held.2, []) =
          let (result, next, caller) :=
            ((Request.quantizeWithCallback network scales revise).attempt folder).perform held
          (result, next, caller, config.questions network revise held.2) := by
  intro held
  have hfirst : Rests config { config } := ⟨rfl, rfl⟩
  obtain ⟨hconfig, hinactive⟩ := hfirst.afterCalls history state
  obtain ⟨result, next, hperform⟩ := request.perform_of_config folder config held.2
  have hheld := hperform held.1 hconfig
  have hfresh := hperform { config } rfl
  have hrecord : held.1.record result = ({ config } : Quantizer).record result := by
    cases result <;> exact congrArg (fun config => Quantizer.mk config _ _) hconfig
  refine ⟨hinactive, request.perform_attempt folder held.1 held.2, ?_, ?_,
    fun network scales revise => ?_⟩
  · show (request.attempt folder).perform (held.1, held.2) = _
    rw [hheld, hfresh, hrecord]
  · show ((request.attempt folder).perform (held.1, held.2)).2.1.Tells
      ((request.attempt folder).perform (held.1, held.2)).1
    rw [hheld]
    exact tells_record held.1 result
  · show (run folder network scales .configured revise.noted).perform (held.1, held.2, []) =
      let (result, next, caller) :=
        (run folder network scales .configured revise).perform (held.1, held.2)
      (result, next, caller, config.questions network revise held.2)
    rw [perform_run, perform_run, Config.quantize_noted, hconfig]

end Quantizer

end LayerQuant
