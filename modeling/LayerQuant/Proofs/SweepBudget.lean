import Mathlib
import LayerQuant.Proofs.Quiescence

/-!
# The budget of a sweep

`Loop` is the run of a sweep without a bound on its passes, together with the list of its calls to
`transform`. A layer that asks for a restart has lowered a cap (`derive_eq_none`), every call leaves
the sweep in order (`Call.Lawful`), and a pass makes at most one call for each layer
(`Consistent.passCalls`). The restarts bound the passes, so the loop ends, and it ends as `run` does
(`run_within_budget`).
-/

namespace LayerQuant

namespace Sweep

/-- Some cap of the first sweep is lower in the second one, or is there for the first time. -/
def Lowered (before after : Sweep) : Prop :=
  ∃ id cap, after.cap? id = some cap ∧ ∀ known, before.cap? id = some known → cap < known

variable {plan : SweepPlan} {before middle after : Sweep} {k : Nat}

/-- A cap that is lowered stays so while more caps are pushed. -/
theorem Lowered.pushed (hplan : plan.Ordered) {P : Single → Prop} (h : before.Lowered middle)
    (hat : middle.AtLayer plan.network.size k) (hpushed : plan.Pushed P middle after) :
    before.Lowered after := by
  obtain ⟨id, cap, hcap, hlower⟩ := h
  obtain ⟨_, _, htight⟩ := hpushed.tightened hplan hat
  obtain ⟨tight, hafter, hle⟩ := htight.tighter hcap
  refine ⟨id, tight, hafter, ?_⟩
  intro known hknown
  rcases hle with rfl | hlt
  · exact hlower known hknown
  · exact Binary.lt_of_lt_of_le' hlt (Binary.le_of_lt' (hlower known hknown))

/-- Conflicts noted before a cap is lowered do not matter. -/
theorem Lowered.of_noted (hnoted : before.Noted middle) (h : middle.Lowered after) :
    before.Lowered after := by
  obtain ⟨noted, _, rfl⟩ := hnoted
  exact h

end Sweep

namespace SweepPlan

variable {plan : SweepPlan} {sweep after final origin : Sweep} {layer : Layer} {cap : Single}
  {consumer k id : Nat}

/-! ## A restart lowers a cap -/

/-- A cap that is placed and tightens something is below the one that was there. -/
theorem placeCap_lowered (hat : sweep.AtLayer plan.network.size k)
    (h : (plan.placeCap cap consumer (sweep, false) id).2 = true) :
    sweep.Lowered (plan.placeCap cap consumer (sweep, false) id).1 := by
  have harrives := plan.placeCap_arrives cap consumer id (sweep, false)
  generalize plan.placeCap cap consumer (sweep, false) id = result at h harrives
  cases harrives with
  | held => cases h
  | noted => cases h
  | tightened hlayer _ hyields =>
      have hid : id < sweep.caps.size := by
        rw [hat.caps_size]
        exact Network.lt_size hlayer
      exact ⟨id, cap, (sweep.cap?_set id cap hid id).trans (if_pos rfl), hyields⟩

theorem foldl_placeCap_lowered (hplan : plan.Ordered) {ids : List Nat}
    (hstops : ∀ id ∈ ids, ∀ {layer}, plan.network.layer? id = some layer →
      layer.stopsCaps = true) (hat : sweep.AtLayer plan.network.size k)
    (h : (ids.foldl (plan.placeCap cap consumer) (sweep, false)).2 = true) :
    sweep.Lowered (ids.foldl (plan.placeCap cap consumer) (sweep, false)).1 := by
  induction ids generalizing sweep k with
  | nil => cases h
  | cons id rest ih =>
      have hrest : ∀ id ∈ rest, ∀ {layer}, plan.network.layer? id = some layer →
          layer.stopsCaps = true := by
        intro other hother
        exact hstops other (List.mem_cons_of_mem _ hother)
      have hpushed : plan.Pushed (· = cap) sweep
          (plan.placeCap cap consumer (sweep, false) id).1 :=
        placeCap_pushed (sweep, false) (hstops id List.mem_cons_self)
      obtain ⟨k', _, htight⟩ := hpushed.tightened hplan hat
      rw [List.foldl_cons] at h ⊢
      cases hplaced : plan.placeCap cap consumer (sweep, false) id with
      | mk middle tightened =>
          rw [hplaced] at htight h
          cases tightened with
          | true =>
              have hlowered : sweep.Lowered (plan.placeCap cap consumer (sweep, false) id).1 :=
                placeCap_lowered hat (by rw [hplaced])
              rw [hplaced] at hlowered
              exact hlowered.pushed hplan htight.atLayer
                (foldl_placeCap_pushed (middle, true) hrest)
          | false =>
              have hloose : (plan.placeCap cap consumer (sweep, false) id).2 = false := by
                rw [hplaced]
              obtain ⟨_, hnoted, _⟩ := placeCap_held hloose
              rw [hplaced] at hnoted
              exact (ih hrest htight.atLayer h).of_noted hnoted

/-- Caps that tighten something lower a cap. -/
theorem pushCaps_lowered (hplan : plan.Ordered) (hat : sweep.AtLayer plan.network.size k)
    {starts : List Nat} (h : (plan.pushCaps starts cap consumer sweep).2 = true) :
    sweep.Lowered (plan.pushCaps starts cap consumer sweep).1 := by
  rw [pushCaps_eq] at h ⊢
  refine foldl_placeCap_lowered hplan ?_ hat h
  intro id hid layer hlayer
  obtain ⟨start, _, hfrontier⟩ := List.mem_flatMap.1 hid
  exact Network.stopsCaps_of_mem_frontier hfrontier hlayer

theorem inputScale_eq_none (hplan : plan.Ordered) (hat : sweep.AtLayer plan.network.size k)
    (h : (plan.inputScale layer sweep).2 = none) :
    sweep.Lowered (plan.inputScale layer sweep).1 := by
  unfold inputScale at h ⊢
  cases hleast : Binary.smallest? (layer.inputs.map sweep.outputScale) with
  | none => simp [hleast] at h
  | some least =>
      cases huniform : layer.kind.needsUniformInputs with
      | false => simp [hleast, huniform] at h
      | true =>
          simp only [hleast, huniform, if_true] at h ⊢
          split at h
          · rename_i htightened
            exact pushCaps_lowered hplan hat htightened
          · cases h

theorem weightedScales_eq_none (hplan : plan.Ordered) (hat : sweep.AtLayer plan.network.size k)
    {input : Single} (h : (plan.weightedScales layer input sweep).2 = none) :
    sweep.Lowered (plan.weightedScales layer input sweep).1 := by
  unfold weightedScales at h ⊢
  cases hlimit : plan.outputLimit? sweep layer.id with
  | none => simp [hlimit] at h
  | some limit =>
      by_cases hexceeds : limit < input * plan.weightScale layer
      · by_cases hcoarse : limit / input < .ofNat .single 1
        · simp only [hlimit, hexceeds, hcoarse, if_true] at h ⊢
          split at h
          · rename_i htightened
            exact pushCaps_lowered hplan hat htightened
          · cases h
        · simp [hlimit, hexceeds, hcoarse] at h
      · simp [hlimit, hexceeds] at h

/-- A layer that asks for a restart has lowered a cap. -/
theorem derive_eq_none (hplan : plan.Ordered) (hat : sweep.AtLayer plan.network.size k)
    (h : (plan.derive layer sweep).2 = none) : sweep.Lowered (plan.derive layer sweep).1 := by
  by_cases hinput : layer.kind = .input
  · rw [derive_of_input hinput] at h
    cases h
  by_cases hmemory : layer.kind = .memory
  · rw [derive_of_memory hmemory] at h
    cases h
  rw [derive_of_other hinput hmemory] at h ⊢
  have hnone : (plan.inputScale layer sweep).2 = none →
      sweep.Lowered (plan.inputScale layer sweep).1 := inputScale_eq_none hplan hat
  cases hfound : plan.inputScale layer sweep with
  | mk found result =>
      simp only [hfound] at h hnone ⊢
      cases result with
      | none => exact hnone rfl
      | some input =>
          cases hkind : layer.kind.hasWeights with
          | false => simp [hkind] at h
          | true =>
              have hsome : (plan.inputScale layer sweep).2 = some input := by rw [hfound]
              have hnoted := (inputScale_eq_some hsome).1
              rw [hfound] at hnoted
              -- The conflicts noted on the way leave the sweep at the same layer.
              have hfoundAt : found.AtLayer plan.network.size k := by
                obtain ⟨noted, _, rfl⟩ := hnoted
                exact hat.congr rfl rfl
              simp only [hkind, if_true] at h ⊢
              have hweighted : (plan.weightedScales layer input found).2 = none →
                  found.Lowered (plan.weightedScales layer input found).1 :=
                weightedScales_eq_none hplan hfoundAt
              cases hscales : plan.weightedScales layer input found with
              | mk last result =>
                  simp only [hscales] at h hweighted ⊢
                  cases result with
                  | none => exact (hweighted rfl).of_noted hnoted
                  | some scales => cases h

/-! ## Caps on layers that can follow them -/

/-- Every cap is on a layer that chooses its own scale. -/
def CapsFollowed (plan : SweepPlan) (sweep : Sweep) : Prop :=
  ∀ {id cap}, sweep.cap? id = some cap →
    ∃ layer, plan.network.layer? id = some layer ∧ layer.kind.canRescale = true

theorem Pushed.capsFollowed {P : Single → Prop} (hpushed : plan.Pushed P sweep after)
    (h : plan.CapsFollowed sweep) : plan.CapsFollowed after := by
  induction hpushed with
  | refl => exact h
  | @note middle conflict _ ih =>
      obtain ⟨⟨noted, _, heq⟩, _⟩ := middle.noted_noteConflict conflict
      rw [heq]
      exact ih
  | @tighten middle tightened layer cap _ _ hlayer hkind _ ih =>
      intro id known hknown
      by_cases heq : id = tightened
      · subst heq
        exact ⟨layer, hlayer, hkind⟩
      · exact ih ((getD_set_of_ne heq (some cap) none).symm.trans hknown)

/-- A step caps only layers that choose their own scale. -/
theorem Step.capsFollowed (hstep : plan.Step sweep after) (h : plan.CapsFollowed sweep) :
    plan.CapsFollowed after := by
  cases hstep with
  | begin => exact h
  | @settle k layer _ _ _ _ => exact (plan.derive_pushed layer sweep).capsFollowed h
  | @restart k layer _ _ _ => exact (plan.derive_pushed layer sweep).capsFollowed h

/-- A run caps only layers that choose their own scale. -/
theorem Reaches.capsFollowed (hreaches : plan.Reaches sweep final) (h : plan.CapsFollowed sweep) :
    plan.CapsFollowed final := by
  induction hreaches with
  | refl => exact h
  | tail _ hstep ih => exact hstep.capsFollowed ih

/-! ## Calls -/

/-- A call to `transform`: the sweep it is made in, and the layer. -/
structure Call where
  sweep : Sweep
  layer : Nat

/-- What a call returns. -/
def Call.result (plan : SweepPlan) (call : Call) : Sweep × Except Error Unit :=
  plan.transform call.layer call.sweep

/-- Whether a call asks for a restart: its layer derives no scales. -/
def Call.asks (plan : SweepPlan) (call : Call) : Bool :=
  (plan.network.layer? call.layer).any fun layer => (plan.derive layer call.sweep).2.isNone

/-- The calls of a pass. -/
def passCalls (plan : SweepPlan) : List Nat → Sweep → List Call
  | [], _ => []
  | id :: rest, sweep =>
    ⟨sweep, id⟩ ::
      match plan.transform id sweep with
      | (_, .error _) => []
      | (sweep, .ok ()) => if sweep.restartPending then [] else passCalls plan rest sweep

/-- Passes are made until every layer is processed or a pass fails, however many that takes. The
list has the calls of all passes, and the last place what the loop ends with. -/
inductive Loop (plan : SweepPlan) : Sweep → List Call → Sweep × Except Error Unit → Prop where
  | done {sweep : Sweep} : sweep.allProcessed = true → Loop plan sweep [] (sweep, .ok ())
  | failed {sweep begun after : Sweep} {ids : List Nat} {error : Error} :
      sweep.allProcessed = false → plan.startPass sweep = (begun, ids) →
      plan.pass ids begun = (after, .error error) →
      Loop plan sweep (plan.passCalls ids begun) (after, .error error)
  | again {sweep begun after : Sweep} {ids : List Nat} {calls : List Call}
      {result : Sweep × Except Error Unit} :
      sweep.allProcessed = false → plan.startPass sweep = (begun, ids) →
      plan.pass ids begun = (after, .ok ()) → Loop plan after calls result →
      Loop plan sweep (plan.passCalls ids begun ++ calls) result

/-- The loop has one course. -/
theorem Loop.unique {calls calls' : List Call} {result result' : Sweep × Except Error Unit}
    (h : plan.Loop sweep calls result) (h' : plan.Loop sweep calls' result') :
    calls' = calls ∧ result' = result := by
  induction h generalizing calls' result' with
  | done hall =>
      cases h' with
      | done => exact ⟨rfl, rfl⟩
      | failed hopen => cases hall.symm.trans hopen
      | again hopen => cases hall.symm.trans hopen
  | failed hopen hbegun hpass =>
      cases h' with
      | done hall => cases hall.symm.trans hopen
      | failed _ hbegun' hpass' =>
          cases hbegun.symm.trans hbegun'
          cases hpass.symm.trans hpass'
          exact ⟨rfl, rfl⟩
      | again _ hbegun' hpass' _ =>
          cases hbegun.symm.trans hbegun'
          cases hpass.symm.trans hpass'
  | again hopen hbegun hpass _ ih =>
      cases h' with
      | done hall => cases hall.symm.trans hopen
      | failed _ hbegun' hpass' =>
          cases hbegun.symm.trans hbegun'
          cases hpass.symm.trans hpass'
      | again _ hbegun' hpass' hlater =>
          cases hbegun.symm.trans hbegun'
          cases hpass.symm.trans hpass'
          obtain ⟨rfl, rfl⟩ := ih hlater
          exact ⟨rfl, rfl⟩

/-- The call is made for the first unprocessed layer of a sweep that the run comes through. -/
structure Call.Due (plan : SweepPlan) (origin : Sweep) (call : Call) : Prop where
  reached : plan.Reaches origin call.sweep
  atLayer : call.sweep.AtLayer plan.network.size call.layer
  lt_size : call.layer < plan.network.size

/-- What a call that is due comes to. -/
theorem Call.Due.transformed {call : Call} (hplan : plan.Ordered)
    (hstart : plan.Consistent k origin) (h : call.Due plan origin) :
    ∃ layer, plan.network.layer? call.layer = some layer ∧
      plan.Consistent call.layer call.sweep ∧
      plan.Transformed call.layer layer call.sweep (call.result plan) := by
  obtain ⟨k', hconsistent⟩ := hstart.reaches hplan h.reached
  obtain rfl := hconsistent.atLayer.unique h.atLayer
  obtain ⟨layer, hlayer⟩ := Network.exists_layer h.lt_size
  exact ⟨layer, hlayer, hconsistent, hconsistent.transformed hplan hlayer⟩

theorem Call.asks_eq {call : Call} (hlayer : plan.network.layer? call.layer = some layer) :
    call.asks plan = (plan.derive layer call.sweep).2.isNone := by
  simp [asks, hlayer]

theorem Call.Due.of_reaches {call : Call} (hreaches : plan.Reaches origin sweep)
    (h : call.Due plan sweep) : call.Due plan origin :=
  ⟨hreaches.trans h.reached, h.atLayer, h.lt_size⟩

/-- A pass makes at most one call for each of its layers, each for the first layer that is
unprocessed by then, and counts the calls that ask for a restart. -/
theorem Consistent.passCalls (hplan : plan.Ordered) (count : Nat) (h : plan.Consistent k sweep)
    (hcount : k + count = plan.network.size) (hpending : sweep.restartPending = false) :
    (plan.passCalls (List.range' k count) sweep).length ≤ count ∧
      (∀ call ∈ plan.passCalls (List.range' k count) sweep, call.Due plan sweep) ∧
      (plan.pass (List.range' k count) sweep).1.restarts = sweep.restarts +
        (plan.passCalls (List.range' k count) sweep).countP (·.asks plan) := by
  induction count generalizing k sweep with
  | zero => exact ⟨le_rfl, by simp [SweepPlan.passCalls], rfl⟩
  | succ count ih =>
      obtain ⟨layer, hlayer⟩ := Network.exists_layer (show k < plan.network.size by omega)
      obtain ⟨hrestarts, hsame⟩ := h.derive_restarts hplan layer
      have hdue : Call.Due plan sweep ⟨sweep, k⟩ := ⟨.refl, h.atLayer, Network.lt_size hlayer⟩
      have htransformed := h.transformed hplan hlayer
      rw [List.range'_succ]
      unfold SweepPlan.passCalls SweepPlan.pass
      have hasks : Call.asks plan ⟨sweep, k⟩ = (plan.derive layer sweep).2.isNone :=
        Call.asks_eq hlayer
      generalize plan.transform k sweep = result at htransformed ⊢
      cases htransformed with
      | @settled scales hderive =>
          have hstep := Step.settle h.atLayer hlayer hderive
          have hloose : ((plan.derive layer sweep).1.settle k scales).restartPending = false :=
            hsame.trans hpending
          obtain ⟨hlength, hcalls, hcounted⟩ :=
            ih (h.settle hplan hlayer hderive) (by omega) hloose
          have hquiet : Call.asks plan ⟨sweep, k⟩ = false := by simp [hasks, hderive]
          simp only [hloose, Bool.false_eq_true, if_false, List.length_cons]
          refine ⟨by omega, ?_, ?_⟩
          · intro call hcall
            rcases List.mem_cons.1 hcall with rfl | hcall
            · exact hdue
            · exact (hcalls call hcall).of_reaches (.single hstep)
          · rw [hcounted, List.countP_cons_of_neg (by simp [hquiet])]
            show (plan.derive layer sweep).1.restarts + _ = _
            rw [hrestarts]
      | restarted hderive hleft =>
          have hasking : Call.asks plan ⟨sweep, k⟩ = true := by simp [hasks, hderive]
          simp only [if_true, List.length_singleton]
          refine ⟨by omega, by simpa using hdue, ?_⟩
          rw [List.countP_cons_of_pos hasking, hrestarts]
          rfl
      | exhausted hderive hleft =>
          have hasking : Call.asks plan ⟨sweep, k⟩ = true := by simp [hasks, hderive]
          simp only [List.length_singleton]
          refine ⟨by omega, by simpa using hdue, ?_⟩
          rw [List.countP_cons_of_pos hasking, hrestarts]
          rfl

/-- The loop makes at most as many passes as it takes a run to end, so it ends as the run does. -/
theorem Consistent.loop (hplan : plan.Ordered) (count : Nat) (h : plan.Consistent k sweep)
    (hrestarts : sweep.restarts ≤ plan.maxRestarts)
    (hcount : plan.maxRestarts < sweep.restarts + count) :
    ∃ calls, plan.Loop sweep calls (plan.passes count sweep) ∧
      calls.length ≤ count * plan.network.size ∧ (∀ call ∈ calls, call.Due plan sweep) ∧
      (plan.passes count sweep).1.restarts = sweep.restarts + calls.countP (·.asks plan) := by
  induction count generalizing k sweep with
  | zero => omega
  | succ count ih =>
      unfold SweepPlan.passes
      cases hdone : sweep.allProcessed with
      | true =>
          simp only [if_true]
          exact ⟨[], .done hdone, Nat.zero_le _, by simp, rfl⟩
      | false =>
          obtain ⟨hbegun, hstart⟩ := h.startPass hplan
          have hbegin : plan.Step sweep (plan.startPass sweep).1 := .begin sweep
          have hused : (plan.startPass sweep).1.restarts = sweep.restarts := rfl
          have hsize := h.atLayer.le_size
          have hends := hbegun.pass hplan (plan.network.size - k) (by omega) rfl
          obtain ⟨hlength, hcalls, hcounted⟩ :=
            hbegun.passCalls hplan (plan.network.size - k) (by omega) rfl
          have hfits : plan.network.size - k ≤ (count + 1) * plan.network.size := by
            rw [Nat.succ_mul]
            omega
          have hdue : ∀ call ∈ plan.passCalls (List.range' k (plan.network.size - k))
              (plan.startPass sweep).1, call.Due plan sweep := by
            intro call hcall
            exact (hcalls call hcall).of_reaches (.single hbegin)
          rw [hstart]
          simp only [Bool.false_eq_true, if_false]
          cases hpass : plan.pass (List.range' k (plan.network.size - k))
              (plan.startPass sweep).1 with
          | mk after result =>
              rw [hpass] at hends hcounted
              cases hends with
              | finished hreaches hall hloose hsame =>
                  simp only [passes_of_allProcessed count hall]
                  refine ⟨_, .again hdone hstart hpass (.done hall), ?_, ?_, ?_⟩
                  · rw [List.append_nil]
                    exact hlength.trans hfits
                  · rw [List.append_nil]
                    exact hdue
                  · rw [List.append_nil]
                    exact hcounted
              | restarted hreaches hopen hmore hle =>
                  obtain ⟨k', hnext⟩ := hbegun.reaches hplan hreaches
                  obtain ⟨calls, hloop, hlater, hmade, hall⟩ := ih hnext hle (by omega)
                  refine ⟨_, .again hdone hstart hpass hloop, ?_, ?_, ?_⟩
                  · rw [List.length_append, Nat.succ_mul]
                    omega
                  · intro call hcall
                    rcases List.mem_append.1 hcall with hcall | hcall
                    · exact hdue call hcall
                    · exact (hmade call hcall).of_reaches (.head hbegin hreaches)
                  · show (plan.passes count after).1.restarts = _
                    rw [hall, hcounted, List.countP_append]
                    omega
              | exhausted hover hmore =>
                  exact ⟨_, .failed hdone hstart hpass, hlength.trans hfits, hdue, hcounted⟩

/-! ## What a call does -/

/-- The processed layers are the first ones of the topological order. -/
def FirstProcessed (plan : SweepPlan) (sweep : Sweep) : Prop :=
  ∃ k, ∀ id, sweep.isProcessed id = true ↔ id ∈ plan.order.take k

theorem Ordered.firstProcessed (hplan : plan.Ordered)
    (h : sweep.AtLayer plan.network.size k) : plan.FirstProcessed sweep := by
  refine ⟨k, fun id => ?_⟩
  have hsize := h.le_size
  rw [hplan.order_eq, List.take_range, List.mem_range, Nat.min_eq_left hsize]
  refine ⟨h.lt_of_isProcessed, fun hid => ?_⟩
  exact (h.processed_iff id (hid.trans_le hsize)).2 hid

/-- A call does one of two things: it processes its layer, or it lowers a cap and asks for a
restart, which is scheduled unless it is one too many. Caps are never raised or removed and stand on
layers that can follow them, and the processed layers are the first ones before and after. -/
structure Call.Lawful (plan : SweepPlan) (call : Call) : Prop where
  before : plan.FirstProcessed call.sweep
  after : plan.FirstProcessed (call.result plan).1
  processes : call.asks plan = false →
    (call.result plan).2 = .ok () ∧ (call.result plan).1.isProcessed call.layer = true ∧
      (call.result plan).1.restarts = call.sweep.restarts
  restarts : call.asks plan = true →
    call.sweep.Lowered (call.result plan).1 ∧
      (call.result plan).1.restarts = call.sweep.restarts + 1 ∧
      if (call.result plan).1.restarts ≤ plan.maxRestarts then
        (call.result plan).2 = .ok () ∧ (call.result plan).1.restartPending = true
      else (call.result plan).2 = .error (.scaleNotConverged plan.maxRestarts)
  tighter : ∀ {id cap}, call.sweep.cap? id = some cap →
    ∃ tight, (call.result plan).1.cap? id = some tight ∧ (tight = cap ∨ tight < cap)
  followed : ∀ {id cap}, (call.result plan).1.cap? id = some cap →
    ∃ layer, plan.network.layer? id = some layer ∧ layer.isInput = false ∧
      layer.kind.canRescale = true

variable {result : Sweep × Except Error Unit}

/-- A call leaves the caps that its layer derived. -/
theorem Transformed.cap?_eq (h : plan.Transformed k layer sweep result) (id : Nat) :
    result.1.cap? id = (plan.derive layer sweep).1.cap? id := by
  cases h <;> rfl

/-- After a call the processed layers are again the first ones. -/
theorem Transformed.firstProcessed (hplan : plan.Ordered) (hconsistent : plan.Consistent k sweep)
    (hlayer : plan.network.layer? k = some layer) (h : plan.Transformed k layer sweep result) :
    plan.FirstProcessed result.1 := by
  obtain ⟨_, _, hreset⟩ := hconsistent.restart hplan layer
    ((plan.derive layer sweep).1.restarts + 1) (plan.derive layer sweep).1.restartPending
  cases h with
  | settled hderive => exact hplan.firstProcessed (hconsistent.settle hplan hlayer hderive).atLayer
  | restarted => exact hplan.firstProcessed (hreset.atLayer.congr rfl rfl)
  | exhausted => exact hplan.firstProcessed (hreset.atLayer.congr rfl rfl)

/-- A call whose layer derives scales processes the layer. -/
theorem Transformed.processes (hplan : plan.Ordered) (hconsistent : plan.Consistent k sweep)
    (hlayer : plan.network.layer? k = some layer) (h : plan.Transformed k layer sweep result)
    (hquiet : (plan.derive layer sweep).2.isNone = false) :
    result.2 = .ok () ∧ result.1.isProcessed k = true ∧ result.1.restarts = sweep.restarts := by
  cases h with
  | settled hderive =>
      have hsettled := (hconsistent.settle hplan hlayer hderive).atLayer
      exact ⟨rfl, (hsettled.processed_iff k (Network.lt_size hlayer)).2 (by omega),
        (hconsistent.derive_restarts hplan layer).1⟩
  | restarted hderive => simp [hderive] at hquiet
  | exhausted hderive => simp [hderive] at hquiet

/-- A call whose layer derives no scales counts a restart, and schedules it or fails. -/
theorem Transformed.restarts (hplan : plan.Ordered) (hconsistent : plan.Consistent k sweep)
    (h : plan.Transformed k layer sweep result) (hasking : (plan.derive layer sweep).2 = none) :
    result.1.restarts = sweep.restarts + 1 ∧
      if result.1.restarts ≤ plan.maxRestarts then
        result.2 = .ok () ∧ result.1.restartPending = true
      else result.2 = .error (.scaleNotConverged plan.maxRestarts) := by
  obtain ⟨hrestarts, _⟩ := hconsistent.derive_restarts hplan layer
  cases h with
  | settled hderive => cases hasking.symm.trans hderive
  | restarted _ hleft =>
      have hgranted : (plan.derive layer sweep).1.restarts + 1 ≤ plan.maxRestarts := by omega
      exact ⟨congrArg (· + 1) hrestarts, by simp [hgranted]⟩
  | exhausted _ hleft =>
      have hrefused : ¬ (plan.derive layer sweep).1.restarts + 1 ≤ plan.maxRestarts := by omega
      exact ⟨congrArg (· + 1) hrestarts, by simp [hrefused]⟩

/-- A layer that chooses its own scale is no input. -/
theorem isInput_of_canRescale (h : layer.kind.canRescale = true) : layer.isInput = false := by
  cases hkind : layer.kind <;> simp_all [Layer.isInput, Kind.canRescale, Kind.altersRange]

/-- Every call that a run makes is lawful. -/
theorem Call.Due.lawful {call : Call} (hplan : plan.Ordered) (hstart : plan.Consistent k origin)
    (hcaps : plan.CapsFollowed origin) (h : call.Due plan origin) : call.Lawful plan := by
  obtain ⟨layer, hlayer, hconsistent, htransformed⟩ := h.transformed hplan hstart
  have hasks := Call.asks_eq hlayer
  have hat := h.atLayer
  refine ⟨hplan.firstProcessed hat, htransformed.firstProcessed hplan hconsistent hlayer,
    ?_, ?_, ?_, ?_⟩
  · intro hquiet
    exact htransformed.processes hplan hconsistent hlayer (hasks.symm.trans hquiet)
  · intro hasking
    rw [hasks, Option.isNone_iff_eq_none] at hasking
    obtain ⟨lowered, cap, hcap, hlower⟩ := derive_eq_none hplan hat hasking
    exact ⟨⟨lowered, cap, (htransformed.cap?_eq lowered).trans hcap, hlower⟩,
      htransformed.restarts hplan hconsistent hasking⟩
  · intro id cap hcap
    obtain ⟨_, _, htight⟩ := (plan.derive_pushed layer call.sweep).tightened hplan hat
    rw [htransformed.cap?_eq]
    exact htight.tighter hcap
  · intro id cap hcap
    rw [htransformed.cap?_eq] at hcap
    obtain ⟨capped, hcapped, hrescales⟩ :=
      (plan.derive_pushed layer call.sweep).capsFollowed (h.reached.capsFollowed hcaps) hcap
    exact ⟨capped, hcapped, isInput_of_canRescale hrescales, hrescales⟩

/-- Every configuration, usable or not, has a plan for a network that was built, and the loop that
runs it ends. It has one course, which ends as `run` does, after at most as many calls as there are
layers for every allowed restart and once more. Every call is lawful, and the final count of restarts
is the number of calls that asked for one. Either no more restarts were asked for than are allowed,
and the run has succeeded with every layer processed, or one more was, and the run has failed. -/
theorem run_within_budget {network : Network} {table : EdgeTable} (hbuilt : network.Built)
    (config : Config) (hsize : network.size ≤ table.size) :
    ∃ plan calls final result, config.sweepPlan network = .ok plan ∧
      plan.run (.start network table) = (final, result) ∧
      plan.Loop (.start network table) calls (final, result) ∧
      (∀ calls' result', plan.Loop (.start network table) calls' result' →
        calls' = calls ∧ result' = (final, result)) ∧
      calls.length ≤ (config.maxRestarts + 1) * network.size ∧
      (∀ call ∈ calls, call.Lawful plan) ∧
      final.restarts = calls.countP (·.asks plan) ∧
      (result = .ok () ∧ calls.countP (·.asks plan) ≤ config.maxRestarts ∧
          final.allProcessed = true ∨
        result = .error (.scaleNotConverged config.maxRestarts) ∧
          calls.countP (·.asks plan) = config.maxRestarts + 1) := by
  obtain ⟨plan, hplan⟩ : ∃ plan, config.sweepPlan network = .ok plan :=
    ⟨_, sweepPlan_of_built hbuilt config⟩
  obtain ⟨hordered, heq⟩ := sweepPlan_eq_ok hbuilt hplan
  have hnetwork : plan.network = network := by rw [heq]
  have hbudget : plan.maxRestarts = config.maxRestarts := by rw [heq]
  subst hnetwork
  have hstart : plan.Consistent 0 (.start plan.network table) := .start hsize
  have hcaps : plan.CapsFollowed (.start plan.network table) := by
    intro id cap hcap
    have hnone : (Array.replicate plan.network.size (none : Option Single)).getD id none = none := by
      rw [Array.getD_eq_getD_getElem?, Array.getElem?_replicate]
      split <;> rfl
    cases hnone.symm.trans hcap
  have hrun : plan.run (.start plan.network table) =
      plan.passes (plan.maxRestarts + 1) (.start plan.network table) :=
    if_neg (Nat.not_lt.2 hsize)
  obtain ⟨calls, hloop, hlength, hdue, hcount⟩ :=
    hstart.loop hordered (plan.maxRestarts + 1) (Nat.zero_le _) (by
      show plan.maxRestarts < 0 + (plan.maxRestarts + 1)
      omega)
  have hends := run_ends hordered hsize
  rw [← hrun] at hloop hcount
  cases hended : plan.run (.start plan.network table) with
  | mk final result =>
      rw [hended] at hloop hcount hends
      have hcounted : final.restarts = calls.countP (·.asks plan) := by
        rw [hcount]
        exact Nat.zero_add _
      rw [← hbudget]
      refine ⟨plan, calls, final, result, hplan, hended, hloop,
        fun _ _ hother => hloop.unique hother, hlength,
        fun call hcall => (hdue call hcall).lawful hordered hstart hcaps, hcounted, ?_⟩
      rw [← hcounted]
      cases hends with
      | finished _ hall _ hle => exact Or.inl ⟨rfl, hle, hall⟩
      | exhausted hover => exact Or.inr ⟨rfl, hover⟩

/-- Without any restart allowed, the one that `branched` asks for is one too many. -/
theorem branched_within_budget :
    branched.size ≤ branchedTable.size ∧
      ∃ plan calls final, Config.sweepPlan { maxRestarts := 0 } branched = .ok plan ∧
        plan.Loop (.start branched branchedTable) calls
          (final, .error (.scaleNotConverged 0)) ∧
        calls.length ≤ 3 ∧ calls.countP (·.asks plan) = 1 := by
  have hsize : branched.size ≤ branchedTable.size := by decide
  obtain ⟨plan, calls, final, result, hplan, hrun, hloop, _, hlength, _, _, hends⟩ :=
    run_within_budget branched_built { maxRestarts := 0 } hsize
  obtain rfl : plan = { branchedPlan with maxRestarts := 0 } :=
    Except.ok.inj (hplan.symm.trans (sweepPlan_of_built branched_built _))
  have hfails : (SweepPlan.run { branchedPlan with maxRestarts := 0 }
      (.start branched branchedTable)).2 ≠ .ok () := by decide +kernel
  rw [hrun] at hfails
  rcases hends with ⟨hok, _⟩ | ⟨rfl, hcount⟩
  · exact absurd hok hfails
  · exact ⟨hsize, _, calls, final, hplan, hloop, hlength, hcount⟩

end SweepPlan

end LayerQuant
