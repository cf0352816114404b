import Mathlib
import LayerQuant.Proofs.UnmetScales

/-!
# What a noted conflict says

A layer that is derived notes a conflict when one of its requirements is unmet and reaches a graph
input (`Raises`). The conflict then stays as it was noted, whatever becomes of the layer. So after a
run its scales and its trace hold (`run_conflicts`), but the requirement is only sure to be unmet if
the layer was not derived again: `crossed` is a network in which a later pass meets it.
-/

namespace LayerQuant

namespace Sweep

variable {sweep : Sweep} {c conflict : ScaleConflict}

theorem mem_noteConflict (h : c ∈ (sweep.noteConflict conflict).conflicts) :
    c ∈ sweep.conflicts ∨ c = conflict := by
  unfold noteConflict at h
  split at h
  · exact Or.inl h
  · simpa using h

theorem table_noteConflict : (sweep.noteConflict conflict).table = sweep.table := by
  obtain ⟨⟨noted, _, heq⟩, _⟩ := sweep.noted_noteConflict conflict
  rw [heq]

end Sweep

namespace SweepPlan

open Binary

variable {plan : SweepPlan} {start sweep before after final : Sweep} {layer : Layer}
  {c : ScaleConflict} {cap input required : Single} {consumer id k p q : Nat}

/-! ## Requirements -/

/-- A requirement of the layer is unmet: one of its inputs is finer than the smallest one, or the
inputs of a weighted layer arrive at more than its limit. -/
inductive Unmet (plan : SweepPlan) (layer : Layer) (input : Single) (sweep : Sweep) :
    Single → Prop where
  | uneven {least : Single} {p : Nat} :
      smallest? (layer.inputs.map sweep.outputScale) = some least → p ∈ layer.inputs →
      scaleTolerance * sweep.outputScale p < sweep.outputScale p - least →
      Unmet plan layer input sweep least
  | coarse {limit : Single} :
      layer.kind.hasWeights = true → plan.outputLimit? sweep layer.id = some limit →
      limit < input → Unmet plan layer input sweep limit

/-- A requirement stays unmet as long as nothing changes that the layer depends on. -/
theorem Unmet.congr (hagrees : plan.Agrees layer sweep after)
    (h : plan.Unmet layer (plan.inputOf layer sweep) sweep required) :
    plan.Unmet layer (plan.inputOf layer after) after required := by
  cases h with
  | uneven hleast hp hfiner =>
      rw [← hagrees.inputScales] at hleast
      rw [← hagrees.inputs _ hp] at hfiner
      exact .uneven hleast hp hfiner
  | coarse hkind hlimit hbelow =>
      rw [← hagrees.outputLimit?] at hlimit
      rw [← hagrees.inputOf] at hbelow
      exact .coarse hkind hlimit hbelow

/-- A settled layer has the scale at which its inputs arrive in its entry. -/
theorem Settled.unmet (hsettled : plan.Settled layer sweep)
    (h : plan.Unmet layer (plan.inputOf layer sweep) sweep required) :
    plan.Unmet layer (sweep.table.get layer.id).input.scale sweep required := by
  cases h with
  | uneven hleast hp hfiner => exact .uneven hleast hp hfiner
  | coarse hkind hlimit hbelow =>
      refine .coarse hkind hlimit ?_
      rwa [hsettled.input_eq, scalesFor_of_weighted hkind]

/-- Deriving the layer can note the conflict: a requirement of the layer is unmet, and a trace from
one of its inputs ends in the graph input, which has a larger scale than is required. -/
structure Raises (plan : SweepPlan) (layer : Layer) (sweep : Sweep) (c : ScaleConflict) :
    Prop where
  layer_eq : c.layer = layer.id
  graph_input : ∃ source, plan.network.layer? c.input = some source ∧ source.kind = .input
  traced : ∃ p ∈ layer.inputs, plan.network.Traces p c.input
  actual_eq : c.actual = sweep.outputScale c.input
  required_lt : c.required < c.actual
  unmet : plan.Unmet layer (plan.inputOf layer sweep) sweep c.required

/-! ## Noting -/

theorem placeCap_conflicts {state : Sweep × Bool}
    (h : c ∈ (plan.placeCap cap consumer state id).1.conflicts) :
    c ∈ state.1.conflicts ∨
      c = ⟨consumer, id, cap, state.1.outputScale id⟩ ∧
        ∃ source, plan.network.layer? id = some source ∧ source.kind = .input := by
  have harrives := plan.placeCap_arrives cap consumer id state
  generalize plan.placeCap cap consumer state id = result at h harrives
  cases harrives with
  | held => exact Or.inl h
  | @noted source hlayer hkind _ =>
      refine (Sweep.mem_noteConflict h).imp_right fun heq => ⟨heq, source, hlayer, ?_⟩
      simpa [Layer.isInput] using hkind
  | tightened => exact Or.inl h

theorem placeCap_table (state : Sweep × Bool) :
    (plan.placeCap cap consumer state id).1.table = state.1.table := by
  have harrives := plan.placeCap_arrives cap consumer id state
  generalize plan.placeCap cap consumer state id = result at harrives
  cases harrives with
  | held => rfl
  | noted => exact Sweep.table_noteConflict
  | tightened => rfl

theorem foldl_placeCap_conflicts {ids : List Nat} {state : Sweep × Bool}
    (h : c ∈ (ids.foldl (plan.placeCap cap consumer) state).1.conflicts) :
    c ∈ state.1.conflicts ∨
      ∃ id ∈ ids, c = ⟨consumer, id, cap, state.1.outputScale id⟩ ∧
        ∃ source, plan.network.layer? id = some source ∧ source.kind = .input := by
  induction ids generalizing state with
  | nil => exact Or.inl h
  | cons id rest ih =>
      rcases ih h with hfirst | ⟨other, hother, heq, hsource⟩
      · exact (placeCap_conflicts hfirst).imp_right fun hnew => ⟨id, List.mem_cons_self, hnew⟩
      · refine Or.inr ⟨other, List.mem_cons_of_mem _ hother, ?_, hsource⟩
        unfold Sweep.outputScale at heq ⊢
        rwa [placeCap_table] at heq

/-- A conflict that pushing caps notes is one of the consumer with a graph input. -/
theorem pushCaps_conflicts {starts : List Nat}
    (h : c ∈ (plan.pushCaps starts cap consumer sweep).1.conflicts) :
    c ∈ sweep.conflicts ∨
      ∃ start ∈ starts, ∃ id ∈ plan.network.frontier start,
        c = ⟨consumer, id, cap, sweep.outputScale id⟩ ∧
          ∃ source, plan.network.layer? id = some source ∧ source.kind = .input := by
  rw [pushCaps_eq] at h
  refine (foldl_placeCap_conflicts h).imp_right ?_
  rintro ⟨id, hid, hnew⟩
  obtain ⟨start, hstart, hfrontier⟩ := List.mem_flatMap.1 hid
  exact ⟨start, hstart, id, hfrontier, hnew⟩

/-- A graph input has the scale that it was given, or the default, and it is positive. -/
theorem Sound.output_given (hplan : plan.Standard) (h : plan.Sound k sweep)
    (hlayer : plan.network.layer? id = some layer) (hkind : layer.kind = .input) (hid : id < k) :
    sweep.outputScale id = (sweep.table.get id).input.scale?.getD plan.defaultScale ∧
      .zero < sweep.outputScale id := by
  have heq : sweep.outputScale id =
      (sweep.table.get id).input.scale?.getD plan.defaultScale := by
    rw [← hplan.formed.id_eq hlayer, (h.settled hlayer hid).output_eq]
    unfold scalesFor
    simp only [hkind]
  exact ⟨heq, heq.symm ▸ (h.given_getD hplan hlayer hkind).1⟩

/-- Along a trace to a graph input scales do not grow. -/
theorem Sound.output_le_source (hplan : plan.Standard) (h : plan.Sound k sweep)
    (htraces : plan.network.Traces p q)
    (hsource : ∃ source, plan.network.layer? q = some source ∧ source.kind = .input)
    (hp : p < k) : sweep.outputScale p ≤ sweep.outputScale q := by
  induction htraces with
  | @stop id _ _ _ =>
      obtain ⟨source, hlayer, hkind⟩ := hsource
      exact le_refl_of_number
        (number_of_lt_right (h.output_given hplan hlayer hkind hp).2)
  | @through id p q layer hlayer hpasses hmem _ ih =>
      have hbefore := hplan.formed.inputs_lt hlayer p hmem
      have hproducer := ih hsource (hbefore.trans hp)
      have hinputs := plan.inputOf_le hmem (number_of_le_left hproducer)
      rw [← hplan.formed.id_eq hlayer, (h.settled hlayer hp).output_eq,
        scalesFor_of_passes hpasses]
      exact le_trans' (capped_le _ (number_of_le_left hinputs)) (le_trans' hinputs hproducer)

/-- A requirement that is below the scale of a traced input makes up a conflict. -/
theorem Sound.raises (hplan : plan.Standard) (h : plan.Sound k sweep)
    (hlayer : plan.network.layer? k = some layer) (hp : p ∈ layer.inputs)
    (hfrontier : q ∈ plan.network.frontier p)
    (hsource : ∃ source, plan.network.layer? q = some source ∧ source.kind = .input)
    (hunmet : plan.Unmet layer (plan.inputOf layer sweep) sweep required)
    (hbelow : (sweep.outputScale p).isNaN = false → required < sweep.outputScale p) :
    plan.Raises layer sweep ⟨layer.id, q, required, sweep.outputScale q⟩ := by
  have htraces := hplan.formed.mem_frontier.1 hfrontier
  have hle := h.output_le_source hplan htraces hsource (hplan.formed.inputs_lt hlayer p hp)
  exact ⟨rfl, hsource, ⟨p, hp, htraces⟩, rfl,
    lt_of_lt_of_le' (hbelow (number_of_le_left hle)) hle, hunmet⟩

theorem Sound.inputScale_raises (hplan : plan.Standard) (h : plan.Sound k sweep)
    (hlayer : plan.network.layer? k = some layer)
    (hc : c ∈ (plan.inputScale layer sweep).1.conflicts) :
    c ∈ sweep.conflicts ∨ plan.Raises layer sweep c := by
  unfold inputScale at hc
  cases hleast : smallest? (layer.inputs.map sweep.outputScale) with
  | none =>
      simp only [hleast] at hc
      exact Or.inl hc
  | some least =>
      cases huniform : layer.kind.needsUniformInputs with
      | false =>
          simp only [hleast, huniform, Bool.false_eq_true, if_false] at hc
          exact Or.inl hc
      | true =>
          simp only [hleast, huniform, if_true] at hc
          refine (pushCaps_conflicts hc).imp_right ?_
          rintro ⟨p, hp, q, hfrontier, rfl, hsource⟩
          obtain ⟨hmem, hfiner⟩ := List.mem_filter.1 hp
          have hfiner := of_decide_eq_true hfiner
          refine h.raises hplan hlayer hmem hfrontier hsource (.uneven hleast hmem hfiner)
            fun hnumber => ?_
          -- A producer that is at most the smallest scale does not exceed it by the tolerance.
          have hunsigned : ∀ p ∈ layer.inputs, (sweep.outputScale p).Unsigned := fun p hp =>
            h.unsigned_output hplan (hplan.formed.inputs_lt hlayer p hp)
          obtain ⟨producer, hproducer, heq⟩ := List.mem_map.1 (isSmallest_of_smallest? hleast).1
          have hunsignedLeast : least.Unsigned := heq ▸ hunsigned producer hproducer
          refine lt_of_not_le' hnumber (number_of_sub (number_of_lt_right hfiner)) fun hle => ?_
          exact not_lt_sub (hunsigned p hmem) hunsignedLeast
            (unsigned_mul (by trivial) (hunsigned p hmem)) hle hfiner

theorem Sound.weightedScales_raises (hplan : plan.Standard) (h : plan.Sound k sweep)
    (hlayer : plan.network.layer? k = some layer) (hkind : layer.kind.hasWeights = true)
    (hc : c ∈ (plan.weightedScales layer (plan.inputOf layer sweep) sweep).1.conflicts) :
    c ∈ sweep.conflicts ∨ plan.Raises layer sweep c := by
  unfold weightedScales at hc
  cases hlimit : plan.outputLimit? sweep layer.id with
  | none =>
      simp only [hlimit] at hc
      exact Or.inl hc
  | some limit =>
      by_cases hexceeds : limit < plan.inputOf layer sweep * plan.weightScale layer
      · by_cases hcoarse : limit / plan.inputOf layer sweep < .ofNat .single 1
        · simp only [hlimit, hexceeds, hcoarse, if_true] at hc
          refine (pushCaps_conflicts hc).imp_right ?_
          rintro ⟨p, hp, q, hfrontier, rfl, hsource⟩
          have hnumber := number_of_lt_left hexceeds
          have hlimitUnsigned := unsigned_outputLimit hplan (fun hcap => (h.caps hcap).2) hlimit
          have hinputUnsigned : (plan.inputOf layer sweep).Unsigned :=
            plan.unsigned_inputOf hplan fun p hp =>
              h.unsigned_output hplan (hplan.formed.inputs_lt hlayer p hp)
          -- Inputs within the limit need no weight scale below one.
          have hbelow : (plan.inputOf layer sweep).isNaN = false →
              limit < plan.inputOf layer sweep := fun hinput =>
            lt_of_not_le' hinput hnumber fun hle =>
              not_div_lt_one hinputUnsigned hlimitUnsigned hle hcoarse
          have hsourceTraces := hplan.formed.mem_frontier.1 hfrontier
          have hscale := h.output_le_source hplan hsourceTraces hsource
            (hplan.formed.inputs_lt hlayer p hp)
          have harrives := plan.inputOf_le hp (number_of_le_left hscale)
          have hlt := hbelow (number_of_le_left harrives)
          exact h.raises hplan hlayer hp hfrontier hsource (.coarse hkind hlimit hlt)
            fun _ => lt_of_lt_of_le' hlt harrives
        · simp only [hlimit, hexceeds, hcoarse, if_true, if_false] at hc
          exact Or.inl hc
      · simp only [hlimit, hexceeds, if_false] at hc
        exact Or.inl hc

theorem Sound.noted (hplan : plan.Standard) (h : plan.Sound k sweep)
    (hnoted : sweep.Noted after) : plan.Sound k after := by
  obtain ⟨conflicts, hconflicts, rfl⟩ := hnoted
  exact ⟨h.toConsistent.congr hplan.toOrdered rfl rfl rfl hconflicts, h.caps, h.given⟩

/-- Deriving the first unprocessed layer notes only conflicts of the layer that are real then. -/
theorem Sound.derive_raises (hplan : plan.Standard) (h : plan.Sound k sweep)
    (hlayer : plan.network.layer? k = some layer)
    (hc : c ∈ (plan.derive layer sweep).1.conflicts) :
    c ∈ sweep.conflicts ∨ plan.Raises layer sweep c := by
  by_cases hinput : layer.kind = .input
  · rw [derive_of_input hinput] at hc
    exact Or.inl hc
  by_cases hmemory : layer.kind = .memory
  · rw [derive_of_memory hmemory] at hc
    exact Or.inl hc
  rw [derive_of_other hinput hmemory] at hc
  have hfirst : c ∈ (plan.inputScale layer sweep).1.conflicts →
      c ∈ sweep.conflicts ∨ plan.Raises layer sweep c := h.inputScale_raises hplan hlayer
  cases hfound : plan.inputScale layer sweep with
  | mk found result =>
      simp only [hfound] at hc hfirst
      cases result with
      | none => exact hfirst hc
      | some input =>
          cases hkind : layer.kind.hasWeights with
          | false =>
              simp only [hkind, Bool.false_eq_true, if_false] at hc
              exact hfirst hc
          | true =>
              have hsome : (plan.inputScale layer sweep).2 = some input := by rw [hfound]
              obtain ⟨hnoted, hscale, _⟩ := inputScale_eq_some hsome
              rw [hfound] at hnoted
              have hsecond : c ∈ (plan.weightedScales layer input found).1.conflicts →
                  c ∈ found.conflicts ∨ plan.Raises layer sweep c := by
                intro hc
                have hfoundSound := h.noted hplan hnoted
                obtain ⟨conflicts, _, rfl⟩ := hnoted
                have hagrees : plan.Agrees layer { sweep with conflicts } sweep :=
                  ⟨fun _ => rfl, fun _ _ => rfl, rfl, rfl⟩
                subst hscale
                refine (hfoundSound.weightedScales_raises hplan hlayer hkind hc).imp_right ?_
                exact fun hraises => ⟨hraises.layer_eq, hraises.graph_input, hraises.traced,
                  hraises.actual_eq, hraises.required_lt, hraises.unmet.congr hagrees⟩
              simp only [hkind, if_true] at hc
              cases hscales : plan.weightedScales layer input found with
              | mk last result =>
                  rw [hscales] at hsecond
                  simp only [hscales] at hc
                  cases result with
                  | none => exact (hsecond hc).elim hfirst Or.inr
                  | some scales => exact (hsecond hc).elim hfirst Or.inr

/-! ## Along a run -/

/-- A step forgets no conflict. -/
theorem Consistent.step_conflicts (hplan : plan.Ordered) (h : plan.Consistent k sweep)
    (hstep : plan.Step sweep after) : sweep.conflicts ⊆ after.conflicts := by
  have hderived : ∀ layer, sweep.conflicts ⊆ (plan.derive layer sweep).1.conflicts := by
    intro layer
    obtain ⟨_, _, htight⟩ := (plan.derive_pushed layer sweep).tightened hplan h.atLayer
    exact htight.conflicts
  cases hstep with
  | begin => exact List.Subset.refl _
  | settle => exact hderived _
  | restart => exact hderived _

/-- A run forgets no conflict. -/
theorem Reaches.conflicts (hplan : plan.Ordered) (h : plan.Consistent k sweep)
    (hreaches : plan.Reaches sweep final) : sweep.conflicts ⊆ final.conflicts := by
  induction hreaches with
  | refl => exact List.Subset.refl _
  | tail hreaches hstep ih =>
      obtain ⟨k', hconsistent⟩ := h.reaches hplan hreaches
      exact List.Subset.trans ih (hconsistent.step_conflicts hplan hstep)

/-- A step writes no entry of a processed layer, and keeps the caps up to any layer that is processed
after it. -/
theorem Consistent.step_kept (hplan : plan.Ordered) (h : plan.Consistent k sweep)
    (hstep : plan.Step sweep after) (hprocessed : after.isProcessed id = true) :
    (∀ j < k, after.table.get j = sweep.table.get j) ∧
      ∀ j ≤ id, after.cap? j = sweep.cap? j := by
  cases hstep with
  | begin => exact ⟨fun _ _ => rfl, fun _ _ => rfl⟩
  | settle hat _ hderive =>
      obtain rfl := h.atLayer.unique hat
      obtain ⟨⟨conflicts, _, heq⟩, _, _⟩ := derive_eq_some hderive
      rw [heq]
      exact ⟨fun j hj => EdgeTable.get_modify_of_ne hj.ne _, fun _ _ => rfl⟩
  | @restart _ layer _ _ _ =>
      obtain ⟨k', _, htight⟩ := (plan.derive_pushed layer sweep).tightened hplan h.atLayer
      have hlt : id < k' := htight.atLayer.lt_of_isProcessed hprocessed
      exact ⟨fun j _ => congrArg (·.get j) htight.table, fun j hj => htight.kept j (by omega)⟩

/-- As long as a layer stays processed, everything up to the layer stays as it is. -/
theorem Reaches.kept (hplan : plan.Ordered) (h : plan.Consistent k sweep)
    (hreaches : plan.Reaches sweep final)
    (hstays : ∀ middle, plan.Reaches sweep middle → plan.Reaches middle final →
      middle.isProcessed id = true) :
    ∀ j ≤ id, final.table.get j = sweep.table.get j ∧ final.cap? j = sweep.cap? j := by
  induction hreaches with
  | refl => exact fun _ _ => ⟨rfl, rfl⟩
  | @tail middle last hreaches hstep ih =>
      obtain ⟨k', hconsistent⟩ := h.reaches hplan hreaches
      have hbefore := ih fun other hother hmiddle =>
        hstays other hother (hmiddle.tail hstep)
      have hlt := hconsistent.atLayer.lt_of_isProcessed (hstays middle hreaches (.single hstep))
      obtain ⟨hentries, hcaps⟩ := hconsistent.step_kept hplan hstep
        (hstays last (hreaches.tail hstep) .refl)
      intro j hj
      exact ⟨(hentries j (by omega)).trans (hbefore j hj).1,
        (hcaps j hj).trans (hbefore j hj).2⟩

/-- A conflict is noted in one step from `before` to `after`, in which its layer is derived. -/
structure Noting (plan : SweepPlan) (start final : Sweep) (c : ScaleConflict)
    (before after : Sweep) (layer : Layer) : Prop where
  reached : plan.Reaches start before
  step : plan.Step before after
  leads : plan.Reaches after final
  mem : c ∈ after.conflicts
  atLayer : before.AtLayer plan.network.size c.layer
  layer?_eq : plan.network.layer? c.layer = some layer
  raises : plan.Raises layer before c

/-- Every conflict of a run has been noted in a step of it. -/
theorem Reaches.noting (hplan : plan.Standard) (h : plan.Sound k start)
    (hempty : start.conflicts = []) (hreaches : plan.Reaches start final)
    (hc : c ∈ final.conflicts) :
    ∃ before after layer, plan.Noting start final c before after layer := by
  induction hreaches with
  | refl =>
      rw [hempty] at hc
      cases hc
  | @tail middle last hreaches hstep ih =>
      obtain ⟨k', hsound⟩ := h.reaches hplan hreaches
      have hold : c ∈ middle.conflicts →
          ∃ before after layer, plan.Noting start last c before after layer := by
        intro hmem
        obtain ⟨before, after, layer, hnoting⟩ := ih hmem
        exact ⟨before, after, layer, { hnoting with leads := hnoting.leads.tail hstep }⟩
      have hnew : ∀ {layer}, middle.AtLayer plan.network.size k' →
          plan.network.layer? k' = some layer → c ∈ (plan.derive layer middle).1.conflicts →
          c ∈ last.conflicts →
          ∃ before after layer, plan.Noting start last c before after layer := by
        intro layer hat hlayer hmem hlast
        rcases hsound.derive_raises hplan hlayer hmem with hbefore | hraises
        · exact hold hbefore
        · have hid : c.layer = k' := hraises.layer_eq.trans (hplan.formed.id_eq hlayer)
          exact ⟨middle, last, layer, hreaches, hstep, .refl, hlast, hid ▸ hat, hid ▸ hlayer,
            hraises⟩
      cases hstep with
      | begin => exact hold hc
      | settle hat hlayer _ =>
          obtain rfl := hsound.atLayer.unique hat
          exact hnew hat hlayer hc hc
      | restart hat hlayer _ =>
          obtain rfl := hsound.atLayer.unique hat
          exact hnew hat hlayer hc hc

/-- Graph inputs keep their scales, so a conflict keeps saying which one its input has. -/
theorem Noting.actual_eq (hplan : plan.Standard) (h : plan.Sound k start)
    (hfinal : plan.Sound plan.network.size final)
    (hnoting : plan.Noting start final c before after layer) :
    c.actual = final.outputScale c.input := by
  obtain ⟨k', hbefore⟩ := h.reaches hplan hnoting.reached
  obtain rfl := hbefore.atLayer.unique hnoting.atLayer
  obtain ⟨source, hsource, hkind⟩ := hnoting.raises.graph_input
  obtain ⟨p, hp, htraces⟩ := hnoting.raises.traced
  have hlt : c.input < c.layer :=
    (htraces.le hplan.formed).trans_lt (hplan.formed.inputs_lt hnoting.layer?_eq p hp)
  have hgiven := Reaches.given hplan.toOrdered hbefore.toConsistent
    (.head hnoting.step hnoting.leads) hsource hkind
  rw [hnoting.raises.actual_eq, (hbefore.output_given hplan hsource hkind hlt).1,
    (hfinal.output_given hplan hsource hkind (Network.lt_size hsource)).1, hgiven]

/-- The requirement of a conflict is unmet in the end if its layer stays processed from when the
conflict was noted. -/
theorem Noting.unmet (hplan : plan.Standard) (h : plan.Sound k start)
    (hfinal : plan.Sound plan.network.size final)
    (hnoting : plan.Noting start final c before after layer)
    (hstays : ∀ middle, plan.Reaches start middle → plan.Reaches middle final →
      c ∈ middle.conflicts → middle.isProcessed c.layer = true) :
    plan.Unmet layer (final.table.get c.layer).input.scale final c.required := by
  obtain ⟨k', hbefore⟩ := h.reaches hplan hnoting.reached
  obtain rfl := hbefore.atLayer.unique hnoting.atLayer
  obtain ⟨k'', hafter⟩ := hbefore.reaches hplan (.single hnoting.step)
  have hreached : plan.Reaches start after := hnoting.reached.tail hnoting.step
  have hlayer := hnoting.layer?_eq
  have hid := hplan.formed.id_eq hlayer
  -- From the noting step on the layer is processed, so nothing before it changes any more.
  have hkept := Reaches.kept hplan.toOrdered hafter.toConsistent hnoting.leads
    fun middle hmiddle hleads => hstays middle (hreached.trans hmiddle) hleads
      (Reaches.conflicts hplan.toOrdered hafter.toConsistent hmiddle hnoting.mem)
  obtain ⟨hentries, hcaps⟩ := hbefore.toConsistent.step_kept hplan.toOrdered hnoting.step
    (hstays after hreached hnoting.leads hnoting.mem)
  have hagrees : plan.Agrees layer before final := by
    refine ⟨fun hkind => ?_, fun p hp => ?_, ?_, ?_⟩
    · rw [hid]
      exact Reaches.given hplan.toOrdered hbefore.toConsistent
        (.head hnoting.step hnoting.leads) hlayer hkind
    · have hlt := hplan.formed.inputs_lt hlayer p hp
      unfold Sweep.outputScale
      rw [(hkept p hlt.le).1, hentries p hlt]
    · rw [hid, (hkept c.layer le_rfl).2, hcaps c.layer le_rfl]
    · exact Reaches.entry (·.output.aggregated?) hplan.toOrdered
        (fun _ _ => LayerEdges.setScales_output_aggregated?) hbefore.toConsistent
        (.head hnoting.step hnoting.leads) layer.id
  have hsettled := hfinal.settled hlayer (Network.lt_size hlayer)
  rw [← hid]
  exact hsettled.unmet (hnoting.raises.unmet.congr hagrees)

/-! ## Without a restart -/

/-- No step takes back a restart. -/
theorem Consistent.step_restarts (hplan : plan.Ordered) (h : plan.Consistent k sweep)
    (hstep : plan.Step sweep after) : sweep.restarts ≤ after.restarts := by
  cases hstep with
  | begin => exact le_rfl
  | @settle _ layer _ _ _ _ => exact (h.derive_restarts hplan layer).1.ge
  | @restart _ layer _ _ _ =>
      have hsame := (h.derive_restarts hplan layer).1
      show sweep.restarts ≤ (plan.derive layer sweep).1.restarts + 1
      omega

theorem Reaches.restarts_le (hplan : plan.Ordered) (h : plan.Consistent k sweep)
    (hreaches : plan.Reaches sweep final) : sweep.restarts ≤ final.restarts := by
  induction hreaches with
  | refl => exact le_rfl
  | tail hreaches hstep ih =>
      obtain ⟨k', hconsistent⟩ := h.reaches hplan hreaches
      exact ih.trans (hconsistent.step_restarts hplan hstep)

/-- A step without a restart leaves the layers of all conflicts processed. -/
theorem Sound.step_processed (hplan : plan.Standard) (h : plan.Sound k sweep)
    (hstep : plan.Step sweep after) (hquiet : after.restarts = sweep.restarts)
    (hbefore : ∀ c ∈ sweep.conflicts, sweep.isProcessed c.layer = true) :
    ∀ c ∈ after.conflicts, after.isProcessed c.layer = true := by
  cases hstep with
  | begin => exact hbefore
  | @settle k' layer scales hat hlayer hderive =>
      obtain rfl := h.atLayer.unique hat
      have hsettled := (h.toConsistent.settle hplan.toOrdered hlayer hderive).atLayer
      intro c hc
      have hid : c.layer < k + 1 := by
        rcases h.derive_raises hplan hlayer hc with hold | hraises
        · exact (h.atLayer.lt_of_isProcessed (hbefore c hold)).trans (Nat.lt_succ_self k)
        · rw [hraises.layer_eq, hplan.formed.id_eq hlayer]
          exact Nat.lt_succ_self k
      exact (hsettled.processed_iff _ (hid.trans_le hsettled.le_size)).2 hid
  | @restart _ layer _ _ _ =>
      have hsame := (h.toConsistent.derive_restarts hplan.toOrdered layer).1
      have hcounted : (plan.derive layer sweep).1.restarts + 1 = sweep.restarts := hquiet
      omega

/-- A run without a restart leaves the layers of all conflicts processed. -/
theorem Reaches.processed (hplan : plan.Standard) (h : plan.Sound k start)
    (hempty : start.conflicts = []) (hreaches : plan.Reaches start final)
    (hquiet : final.restarts = start.restarts) :
    ∀ c ∈ final.conflicts, final.isProcessed c.layer = true := by
  induction hreaches with
  | refl => simp [hempty]
  | @tail middle last hreaches hstep ih =>
      obtain ⟨k', hsound⟩ := h.reaches hplan hreaches
      have hfirst := Reaches.restarts_le hplan.toOrdered h.toConsistent hreaches
      have hlast := hsound.toConsistent.step_restarts hplan.toOrdered hstep
      exact hsound.step_processed hplan hstep (by omega) (ih (by omega))

/-- Every conflict after a run is about a requirement that has been traced from an input of its
layer to a graph input, and this input still has the scale that it is said to have, which is above
the required one. If its layer stays processed from when the conflict was noted, the requirement is
unmet in the final table. -/
theorem run_conflicts {config : Config} {network : Network} {table : EdgeTable}
    (hbuilt : network.Built) (hvalid : config.validate = .ok ())
    (hplan : config.sweepPlan network = .ok plan)
    (hgiven : ∀ {id layer scale}, network.layer? id = some layer → layer.kind = .input →
      (table.get id).input.scale? = some scale → .zero < scale ∧ scale.isFinite = true)
    (hrun : plan.run (.start network table) = (final, .ok ())) (hc : c ∈ final.conflicts) :
    ∃ layer, network.layer? c.layer = some layer ∧
      (∃ source, network.layer? c.input = some source ∧ source.kind = .input) ∧
      (∃ p ∈ layer.inputs, network.Traces p c.input) ∧
      c.actual = final.outputScale c.input ∧ c.required < c.actual ∧
      ((∀ middle, plan.Reaches (.start network table) middle → plan.Reaches middle final →
          c ∈ middle.conflicts → middle.isProcessed c.layer = true) →
        plan.Unmet layer (final.table.get c.layer).input.scale final c.required) := by
  obtain ⟨hstandard, rfl, _⟩ := standard_of_sweepPlan hbuilt hvalid hplan
  obtain ⟨hstart, hreaches, hfinal⟩ := run_reaches hstandard hgiven hrun
  obtain ⟨before, after, layer, hnoting⟩ := Reaches.noting hstandard hstart rfl hreaches hc
  exact ⟨layer, hnoting.layer?_eq, hnoting.raises.graph_input, hnoting.raises.traced,
    hnoting.actual_eq hstandard hstart hfinal, hnoting.raises.required_lt,
    hnoting.unmet hstandard hstart hfinal⟩

/-- The right input of `joined` is finer than the left one to the end. -/
theorem joined_conflict :
    ⟨2, 1, .ofNat .single 1, .ofNat .single 2⟩ ∈
        (joinedPlan.run (.start joined joinedTable)).1.conflicts ∧
      ∃ layer, joined.layer? 2 = some layer ∧
        joinedPlan.Unmet layer
          ((joinedPlan.run (.start joined joinedTable)).1.table.get 2).input.scale
          (joinedPlan.run (.start joined joinedTable)).1 (.ofNat .single 1) := by
  have hvalid : Config.validate {} = .ok () := by decide +kernel
  have hplan : Config.sweepPlan {} joined = .ok joinedPlan := sweepPlan_of_built joined_built _
  have hgiven : ∀ {id layer scale}, joined.layer? id = some layer → layer.kind = .input →
      (joinedTable.get id).input.scale? = some scale → .zero < scale ∧ scale.isFinite = true :=
    fun _ _ hscale => given_of_forall (by decide +kernel) hscale
  have hok : (joinedPlan.run (.start joined joinedTable)).2 = .ok () := by decide +kernel
  have hquiet : (joinedPlan.run (.start joined joinedTable)).1.restarts = 0 := by decide +kernel
  have hmem : (⟨2, 1, .ofNat .single 1, .ofNat .single 2⟩ : ScaleConflict) ∈
      (joinedPlan.run (.start joined joinedTable)).1.conflicts := by decide +kernel
  obtain ⟨layer, hlayer, _, _, _, _, hunmet⟩ := run_conflicts joined_built hvalid hplan
    hgiven (Prod.ext rfl hok) hmem
  obtain ⟨hstandard, _, _⟩ := standard_of_sweepPlan joined_built hvalid hplan
  have hstart : joinedPlan.Sound 0 (.start joined joinedTable) :=
    .start (by decide) hgiven
  refine ⟨hmem, layer, hlayer, hunmet fun middle hreaches hleads hnoted => ?_⟩
  obtain ⟨k, hmiddle⟩ := hstart.reaches hstandard hreaches
  have hle := Reaches.restarts_le hstandard.toOrdered hmiddle.toConsistent hleads
  have hnone : middle.restarts = 0 := Nat.le_zero.1 (hle.trans_eq hquiet)
  exact Reaches.processed hstandard hstart rfl hreaches hnone _ hnoted

/-- Layer four sees the right input beside a layer that is finer until the activation is capped. -/
def crossed : Network where
  layers := #[{ id := 0, name := "left", kind := .input },
    { id := 1, name := "right", kind := .input },
    { id := 2, name := "active", kind := .activation, inputs := [0] },
    { id := 3, name := "joined", kind := .concat, inputs := [0, 2] },
    { id := 4, name := "both", kind := .concat, inputs := [3, 1] }]
  inputs := [0, 1]

theorem crossed_built : crossed.Built := by
  have hleft : Network.addInput {} "left" =
      .ok (⟨#[{ id := 0, name := "left", kind := .input }], [0]⟩, 0) := by cbv
  have hright : Network.addInput ⟨#[{ id := 0, name := "left", kind := .input }], [0]⟩ "right" =
      .ok (⟨#[{ id := 0, name := "left", kind := .input },
        { id := 1, name := "right", kind := .input }], [0, 1]⟩, 1) := by cbv
  have hactive : Network.addLayer ⟨#[{ id := 0, name := "left", kind := .input },
      { id := 1, name := "right", kind := .input }], [0, 1]⟩ "active" .activation [0] =
      .ok (⟨#[{ id := 0, name := "left", kind := .input },
        { id := 1, name := "right", kind := .input },
        { id := 2, name := "active", kind := .activation, inputs := [0] }], [0, 1]⟩, 2) := by cbv
  have hjoined : Network.addLayer ⟨#[{ id := 0, name := "left", kind := .input },
      { id := 1, name := "right", kind := .input },
      { id := 2, name := "active", kind := .activation, inputs := [0] }], [0, 1]⟩
      "joined" .concat [0, 2] = .ok (⟨#[{ id := 0, name := "left", kind := .input },
        { id := 1, name := "right", kind := .input },
        { id := 2, name := "active", kind := .activation, inputs := [0] },
        { id := 3, name := "joined", kind := .concat, inputs := [0, 2] }], [0, 1]⟩, 3) := by cbv
  have hboth : Network.addLayer ⟨#[{ id := 0, name := "left", kind := .input },
      { id := 1, name := "right", kind := .input },
      { id := 2, name := "active", kind := .activation, inputs := [0] },
      { id := 3, name := "joined", kind := .concat, inputs := [0, 2] }], [0, 1]⟩
      "both" .concat [3, 1] = .ok (crossed, 4) := by cbv
  exact .addLayer (.addLayer (.addLayer (.addInput (.addInput .empty hleft) hright) hactive)
    hjoined) hboth

/-- The left input of `crossed` has the scale two, the right one one. -/
def crossedTable : EdgeTable where
  layers := #[{ input := { scale? := some (.ofNat .single 2) } },
    { input := { scale? := some (.ofNat .single 1) } }, {}, {}, {}]

/-- The plan that the default configuration makes for `crossed`. -/
def crossedPlan : SweepPlan where
  network := crossed
  order := [0, 1, 2, 3, 4]
  rule := {}
  defaultScale := .ofNat .single 1
  precision := .int16
  maxRestarts := 1024

/-- In the first pass layer four asks for the scale one of the left input and the activation. Once
the activation has it, the inputs of layer four agree, but the conflict is still there. -/
theorem crossed_conflict_met :
    crossed.Built ∧ Config.validate {} = .ok () ∧ Config.sweepPlan {} crossed = .ok crossedPlan ∧
      crossed.size ≤ crossedTable.size ∧
      (∀ {id layer scale}, crossed.layer? id = some layer → layer.kind = .input →
        (crossedTable.get id).input.scale? = some scale → .zero < scale ∧ scale.isFinite = true) ∧
      (crossedPlan.run (.start crossed crossedTable)).2 = .ok () ∧
      ⟨4, 0, .ofNat .single 1, .ofNat .single 2⟩ ∈
        (crossedPlan.run (.start crossed crossedTable)).1.conflicts ∧
      ¬ ∃ layer, crossed.layer? 4 = some layer ∧
        crossedPlan.Unmet layer
          ((crossedPlan.run (.start crossed crossedTable)).1.table.get 4).input.scale
          (crossedPlan.run (.start crossed crossedTable)).1 (.ofNat .single 1) := by
  refine ⟨crossed_built, by decide +kernel, sweepPlan_of_built crossed_built _, by decide,
    fun _ _ hscale => given_of_forall (by decide +kernel) hscale, by decide +kernel,
    by decide +kernel, ?_⟩
  rintro ⟨layer, hlayer, hunmet⟩
  obtain rfl := Option.some.inj hlayer
  have hagree : ∀ p ∈ [3, 1],
      ¬ scaleTolerance * (crossedPlan.run (.start crossed crossedTable)).1.outputScale p <
        (crossedPlan.run (.start crossed crossedTable)).1.outputScale p - .ofNat .single 1 := by
    decide +kernel
  cases hunmet with
  | uneven _ hp hfiner => exact hagree _ hp hfiner
  | coarse hkind => cases hkind

end SweepPlan

end LayerQuant
