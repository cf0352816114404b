import Mathlib
import LayerQuant.Proofs.BoundedScales

/-!
# Restarts lower scales

What a run derives for a layer anew is at most what it has derived before. From one state of a run
to a later one all scales go down, by induction along the order of the network
(`Tightens.scales_le`); the calls of a run, which follow each other (`Loop.pairwise`), are then
compared two by two (`restarts_lower_scales`). The settings need not be usable, so scales may be
negative, and the run need not succeed.
-/

namespace LayerQuant

namespace SweepPlan

open Binary

variable {plan : SweepPlan} {sweep later : Sweep} {k k' id : Nat}

/-- The output scales of the processed layers, and the bias scales of the weighted ones among them,
are numbers. Of all scales that a run computes no others have to be. -/
structure Numbered (plan : SweepPlan) (sweep : Sweep) : Prop where
  outputs : ∀ {id layer}, plan.network.layer? id = some layer → sweep.isProcessed id = true →
    (sweep.outputScale id).isNaN = false
  biases : ∀ {id layer}, plan.network.layer? id = some layer → layer.kind.hasWeights = true →
    sweep.isProcessed id = true → (sweep.table.get id).bias.scale.isNaN = false

/-- The scales of a layer that is processed in both states have gone down. -/
theorem Tightens.scales_le (hplan : plan.Ordered) (hbuilt : plan.network.Built)
    (h : plan.Tightens sweep later) (hsweep : plan.Consistent k sweep)
    (hlater : plan.Consistent k' later) (hnumbers : plan.Numbered sweep)
    (hnumbers' : plan.Numbered later) (hid : id < k) (hid' : id < k') :
    (later.table.get id).input.scale ≤ (sweep.table.get id).input.scale ∧
      later.outputScale id ≤ sweep.outputScale id := by
  have hsize := hsweep.atLayer.le_size
  revert hid'
  refine hplan.formed.induct hsize id hid fun {id layer} hlayer hid hbefore hid' => ?_
  have hprocessed := (hsweep.atLayer.processed_iff id (hid.trans_le hsize)).2 hid
  have hprocessed' := (hlater.atLayer.processed_iff id (hid.trans_le hsize)).2 hid'
  have hsettled := hsweep.settled hlayer hid
  have hsettled' := hlater.settled hlayer hid'
  have hinputs : ∀ p ∈ layer.inputs, later.outputScale p ≤ sweep.outputScale p := fun p hp =>
    (hbefore p hp ((hplan.formed.inputs_lt hlayer p hp).trans hid')).2
  obtain rfl := hplan.formed.id_eq hlayer
  have hnumber := hnumbers.outputs hlayer hprocessed
  rw [hsettled.output_eq] at hnumber
  rw [hsettled.input_eq, hsettled.output_eq, hsettled'.input_eq, hsettled'.output_eq]
  have hlawful := hbuilt.lawful.layers hlayer
  refine h.scalesFor_le hlayer (fun hkind hmemory => ?_) hnumber fun hkind => ?_
  · exact inputOf_mono (fun hempty => absurd hempty (hlawful.fed hkind hmemory)) hinputs
  · rw [← hsettled.bias_eq hkind, ← hsettled'.bias_eq hkind]
    exact ⟨hnumbers.biases hlayer hkind hprocessed, hnumbers'.biases hlayer hkind hprocessed'⟩

/-! ## From one call of a run to a later one -/

/-- A pass that succeeds is a chain of steps. -/
theorem PassEnds.reaches {result : Sweep × Except Error Unit} (h : plan.PassEnds sweep result)
    (hok : result.2 = .ok ()) : plan.Reaches sweep result.1 := by
  cases h with
  | finished hreaches => exact hreaches
  | restarted hreaches => exact hreaches
  | exhausted => cases hok

/-- The run goes on from what the first call returns to the second call. -/
def Call.Precedes (plan : SweepPlan) (earlier later : Call) : Prop :=
  plan.Reaches (earlier.result plan).1 later.sweep

/-- The calls of a pass follow each other, and after a pass that succeeds the run goes on from each
of them. -/
theorem Consistent.passCalls_pairwise (hplan : plan.Ordered) (count : Nat)
    (h : plan.Consistent k sweep) (hcount : k + count = plan.network.size)
    (hpending : sweep.restartPending = false) :
    (plan.passCalls (List.range' k count) sweep).Pairwise (·.Precedes plan) ∧
      ((plan.pass (List.range' k count) sweep).2 = .ok () →
        ∀ call ∈ plan.passCalls (List.range' k count) sweep,
          plan.Reaches (call.result plan).1 (plan.pass (List.range' k count) sweep).1) := by
  induction count generalizing k sweep with
  | zero => exact ⟨.nil, by simp [SweepPlan.passCalls]⟩
  | succ count ih =>
      obtain ⟨layer, hlayer⟩ := Network.exists_layer (show k < plan.network.size by omega)
      have hsame := (h.derive_restarts hplan layer).2
      have htransformed := h.transformed hplan hlayer
      rw [List.range'_succ]
      unfold SweepPlan.passCalls SweepPlan.pass
      have hresult : Call.result plan ⟨sweep, k⟩ = plan.transform k sweep := rfl
      generalize plan.transform k sweep = result at htransformed hresult ⊢
      cases htransformed with
      | @settled scales hderive =>
          have hnext := h.settle hplan hlayer hderive
          have hloose : ((plan.derive layer sweep).1.settle k scales).restartPending = false :=
            hsame.trans hpending
          obtain ⟨_, hcalls, _⟩ := hnext.passCalls hplan count (by omega) hloose
          obtain ⟨hpairwise, hafter⟩ := ih hnext (by omega) hloose
          simp only [hloose, Bool.false_eq_true, if_false]
          refine ⟨.cons (fun call hcall => ?_) hpairwise, fun hok call hcall => ?_⟩
          · unfold Call.Precedes
            rw [hresult]
            exact (hcalls call hcall).reached
          · rcases List.mem_cons.1 hcall with rfl | hcall
            · rw [hresult]
              exact (hnext.pass hplan count (by omega) hloose).reaches hok
            · exact hafter hok call hcall
      | restarted =>
          simp only [if_true]
          refine ⟨List.pairwise_singleton _ _, fun _ call hcall => ?_⟩
          obtain rfl := List.mem_singleton.1 hcall
          rw [hresult]
          exact .refl
      | exhausted => exact ⟨List.pairwise_singleton _ _, fun hok => by cases hok⟩

/-- The calls of the loop follow each other. -/
theorem Loop.pairwise {calls : List Call} {result : Sweep × Except Error Unit}
    (hplan : plan.Ordered) (h : plan.Loop sweep calls result)
    (hconsistent : plan.Consistent k sweep) :
    (∀ call ∈ calls, plan.Reaches sweep call.sweep) ∧ calls.Pairwise (·.Precedes plan) := by
  induction h generalizing k with
  | done => exact ⟨by simp, .nil⟩
  | @failed sweep begun after ids error _ hbegun _ =>
      obtain ⟨hconsistent, hids⟩ := hconsistent.startPass hplan
      obtain ⟨rfl, rfl⟩ := Prod.mk.inj (hids.symm.trans hbegun)
      have hsize := hconsistent.atLayer.le_size
      obtain ⟨_, hcalls, _⟩ := hconsistent.passCalls hplan (plan.network.size - k) (by omega) rfl
      refine ⟨fun call hcall => .head (.begin sweep) (hcalls call hcall).reached, ?_⟩
      exact (hconsistent.passCalls_pairwise hplan (plan.network.size - k) (by omega) rfl).1
  | @again sweep begun after ids calls result _ hbegun hpass _ ih =>
      obtain ⟨hconsistent, hids⟩ := hconsistent.startPass hplan
      obtain ⟨rfl, rfl⟩ := Prod.mk.inj (hids.symm.trans hbegun)
      have hsize := hconsistent.atLayer.le_size
      obtain ⟨_, hcalls, _⟩ := hconsistent.passCalls hplan (plan.network.size - k) (by omega) rfl
      obtain ⟨hpairwise, hafter⟩ :=
        hconsistent.passCalls_pairwise hplan (plan.network.size - k) (by omega) rfl
      have hends := hconsistent.pass hplan (plan.network.size - k) (by omega) rfl
      rw [hpass] at hafter hends
      have hreaches := hends.reaches rfl
      obtain ⟨k', hnext⟩ := hconsistent.reaches hplan hreaches
      obtain ⟨hlater, hrest⟩ := ih hnext
      refine ⟨fun call hcall => ?_, List.pairwise_append.2 ⟨hpairwise, hrest, ?_⟩⟩
      · rcases List.mem_append.1 hcall with hcall | hcall
        · exact .head (.begin sweep) (hcalls call hcall).reached
        · exact .head (.begin sweep) (hreaches.trans (hlater call hcall))
      · -- The run goes on from a call of this pass to its end, and from there to a later call.
        intro earlier hearlier call hcall
        exact (hafter rfl earlier hearlier).trans (hlater call hcall)

/-- A call that processes its layer is a step that settles it. -/
theorem Call.Due.settles {origin : Sweep} {call : Call} (hplan : plan.Ordered)
    (hstart : plan.Consistent k origin) (h : call.Due plan origin)
    (hquiet : call.asks plan = false) :
    plan.Step call.sweep (call.result plan).1 ∧
      plan.Consistent (call.layer + 1) (call.result plan).1 := by
  obtain ⟨layer, hlayer, hconsistent, htransformed⟩ := h.transformed hplan hstart
  rw [Call.asks_eq hlayer] at hquiet
  generalize call.result plan = result at htransformed ⊢
  cases htransformed with
  | settled hderive =>
      exact ⟨.settle h.atLayer hlayer hderive, hconsistent.settle hplan hlayer hderive⟩
  | restarted hderive => simp [hderive] at hquiet
  | exhausted hderive => simp [hderive] at hquiet

/-- The entry that a call leaves for its layer. -/
def Call.entry (plan : SweepPlan) (call : Call) : LayerEdges :=
  (call.result plan).1.table.get call.layer

/-- Every configuration, usable or not, has a plan for a network that was built. If in the run of
that plan every call leaves the processed layers with numbers for scales, a layer that is processed
again gets an input scale and an output scale that are at most those it got before, however many
restarts there are and however the run ends. -/
theorem restarts_lower_scales {network : Network} {table : EdgeTable} (hbuilt : network.Built)
    (config : Config) (hsize : network.size ≤ table.size) :
    ∃ plan calls, config.sweepPlan network = .ok plan ∧
      plan.Loop (.start network table) calls (plan.run (.start network table)) ∧
      ((∀ call ∈ calls, plan.Numbered (call.result plan).1) →
        calls.Pairwise fun earlier later => later.layer = earlier.layer →
          earlier.asks plan = false → later.asks plan = false →
          (later.entry plan).input.scale ≤ (earlier.entry plan).input.scale ∧
            (later.entry plan).output.scale ≤ (earlier.entry plan).output.scale) := by
  obtain ⟨plan, hplan⟩ : ∃ plan, config.sweepPlan network = .ok plan :=
    ⟨_, sweepPlan_of_built hbuilt config⟩
  obtain ⟨hordered, heq⟩ := sweepPlan_eq_ok hbuilt hplan
  obtain rfl : plan.network = network := congrArg SweepPlan.network heq
  have hstart : plan.Consistent 0 (.start plan.network table) := .start hsize
  obtain ⟨calls, hloop, hdue⟩ := run_loop hordered hsize
  refine ⟨plan, calls, hplan, hloop, fun hnumbers => ?_⟩
  refine (hloop.pairwise hordered hstart).2.imp_of_mem ?_
  intro earlier later hearlier hlater hprecedes hsame hquiet hquiet'
  obtain ⟨hstep, hconsistent⟩ := (hdue earlier hearlier).settles hordered hstart hquiet
  obtain ⟨hstep', hconsistent'⟩ := (hdue later hlater).settles hordered hstart hquiet'
  have hreached : plan.Reaches (.start plan.network table) (earlier.result plan).1 :=
    (hdue earlier hearlier).reached.tail hstep
  have hcaps : ∀ {id cap}, (earlier.result plan).1.cap? id = some cap → cap.isNaN = false :=
    hreached.isNaN_cap hordered hstart fun hcap => by simp at hcap
  have htightens : plan.Tightens (earlier.result plan).1 (later.result plan).1 :=
    Reaches.tightens hordered hconsistent hcaps (hprecedes.tail hstep')
  unfold Call.entry
  rw [hsame]
  exact htightens.scales_le hordered hbuilt hconsistent hconsistent' (hnumbers earlier hearlier)
    (hnumbers later hlater) (Nat.lt_succ_self _) (by omega)

/-- A loop begins with a pass, and goes on with what that leaves if it succeeds. -/
theorem Loop.of_pass {calls : List Call} {result : Sweep × Except Error Unit}
    (hopen : sweep.allProcessed = false)
    (hpass : (plan.pass (plan.startPass sweep).2 (plan.startPass sweep).1).2 = .ok ())
    (h : plan.Loop (plan.pass (plan.startPass sweep).2 (plan.startPass sweep).1).1 calls result) :
    plan.Loop sweep
      (plan.passCalls (plan.startPass sweep).2 (plan.startPass sweep).1 ++ calls) result :=
  .again hopen rfl (Prod.ext rfl hpass) h

/-- The plan for `stacked` that allows one restart. -/
def restartingPlan : SweepPlan := { stackedPlan with maxRestarts := 1 }

/-- The calls of the run over `stacked`: those of the pass that ends with the restart, and those of
the one after it. -/
def stackedCalls : List Call :=
  let first := restartingPlan.startPass (.start stacked stackedTable)
  let second := restartingPlan.startPass (restartingPlan.pass first.2 first.1).1
  restartingPlan.passCalls first.2 first.1 ++ restartingPlan.passCalls second.2 second.1

theorem stackedCalls_loop : ∃ result,
    restartingPlan.Loop (.start stacked stackedTable) stackedCalls result := by
  have hloop : restartingPlan.Loop (.start stacked stackedTable) _ _ :=
    .of_pass (by decide +kernel) (by decide +kernel)
      (.of_pass (by decide +kernel) (by decide +kernel) (.done (by decide +kernel)))
  rw [List.append_nil] at hloop
  exact ⟨_, hloop⟩

/-- The weighted layer caps the activation in front of it, and the activation, derived once more,
gets a lower output scale. -/
theorem stacked_restart_lowers : ∃ earlier later : Call,
    restartingPlan.Loop (.start stacked stackedTable) stackedCalls
        (restartingPlan.run (.start stacked stackedTable)) ∧
      stackedCalls[1]? = some earlier ∧ stackedCalls[3]? = some later ∧
      later.layer = earlier.layer ∧
      (later.entry restartingPlan).input.scale ≤ (earlier.entry restartingPlan).input.scale ∧
      (later.entry restartingPlan).output.scale ≤ (earlier.entry restartingPlan).output.scale ∧
      (later.entry restartingPlan).output.scale ≠ (earlier.entry restartingPlan).output.scale := by
  have hsize : stacked.size ≤ stackedTable.size := by decide
  obtain ⟨plan, calls, hplan, hloop, hlowers⟩ :=
    restarts_lower_scales stacked_built { maxRestarts := 1 } hsize
  obtain rfl : plan = restartingPlan :=
    Except.ok.inj (hplan.symm.trans (sweepPlan_of_built stacked_built _))
  obtain ⟨result, hcourse⟩ := stackedCalls_loop
  obtain ⟨rfl, _⟩ := hcourse.unique hloop
  have hnumbers : ∀ call ∈ stackedCalls,
      restartingPlan.Numbered (call.result restartingPlan).1 := by
    have hall : ∀ call ∈ stackedCalls, ∀ id < 3,
        ((call.result restartingPlan).1.outputScale id).isNaN = false ∧
          ((call.result restartingPlan).1.table.get id).bias.scale.isNaN = false := by
      decide +kernel
    intro call hcall
    exact ⟨fun hlayer _ => (hall call hcall _ (Network.lt_size hlayer)).1,
      fun hlayer _ _ => (hall call hcall _ (Network.lt_size hlayer)).2⟩
  have hcalls : ∀ earlier ∈ (stackedCalls[1]? : Option Call),
      ∀ later ∈ (stackedCalls[3]? : Option Call),
      later.layer = earlier.layer ∧ earlier.asks restartingPlan = false ∧
        later.asks restartingPlan = false ∧
        (later.entry restartingPlan).output.scale ≠
          (earlier.entry restartingPlan).output.scale := by
    decide +kernel
  obtain ⟨earlier, hearlier⟩ : ∃ earlier, stackedCalls[1]? = some earlier :=
    Option.isSome_iff_exists.1 (by decide +kernel)
  obtain ⟨later, hlater⟩ : ∃ later, stackedCalls[3]? = some later :=
    Option.isSome_iff_exists.1 (by decide +kernel)
  obtain ⟨hsame, hquiet, hquiet', hdiffers⟩ := hcalls earlier hearlier later hlater
  refine ⟨earlier, later, hloop, hearlier, hlater, hsame, ?_⟩
  obtain ⟨hfirst, rfl⟩ := List.getElem?_eq_some_iff.1 hearlier
  obtain ⟨hsecond, rfl⟩ := List.getElem?_eq_some_iff.1 hlater
  obtain ⟨hinput, houtput⟩ := List.pairwise_iff_getElem.1 (hlowers hnumbers) 1 3 hfirst hsecond
    (by decide) hsame hquiet hquiet'
  exact ⟨hinput, houtput, hdiffers⟩

end SweepPlan

end LayerQuant
