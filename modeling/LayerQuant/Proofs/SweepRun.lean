import Mathlib
import LayerQuant.Proofs.Settled

/-!
# The run of a sweep

`Step` is one step of a sweep as a relation, and `Consistent.step` the step lemma: what is settled
grows by the derived layer, or shrinks to the layers before the first tightened cap.
`Consistent.transformed` says what transforming the first unprocessed layer comes to, `PassEnds` and
`RunEnds` how a pass and a run end. A run that succeeds is a chain of steps after which every layer
is settled (`run_consistent`). No setting has to be usable for any of this.
-/

namespace LayerQuant

namespace SweepPlan

/-- One step of a sweep: a pass begins, or the first unprocessed layer is derived and either gets
its scales or asks for a restart. -/
inductive Step (plan : SweepPlan) : Sweep → Sweep → Prop where
  | begin (sweep : Sweep) : Step plan sweep (plan.startPass sweep).1
  | settle {sweep : Sweep} {k : Nat} {layer : Layer} {scales : DerivedScales} :
      sweep.AtLayer plan.network.size k → plan.network.layer? k = some layer →
      (plan.derive layer sweep).2 = some scales →
      Step plan sweep ((plan.derive layer sweep).1.settle k scales)
  | restart {sweep : Sweep} {k : Nat} {layer : Layer} :
      sweep.AtLayer plan.network.size k → plan.network.layer? k = some layer →
      (plan.derive layer sweep).2 = none →
      Step plan sweep
        { (plan.derive layer sweep).1 with
          restarts := (plan.derive layer sweep).1.restarts + 1, restartPending := true }

/-- The second sweep is reached from the first one by steps. -/
def Reaches (plan : SweepPlan) : Sweep → Sweep → Prop := Relation.ReflTransGen plan.Step

variable {plan : SweepPlan} {sweep after final : Sweep} {layer : Layer} {k id : Nat}

theorem outputScale_settle_of_ne (scales : DerivedScales) (h : id ≠ k) :
    (sweep.settle k scales).outputScale id = sweep.outputScale id := by
  unfold Sweep.outputScale Sweep.settle
  rw [EdgeTable.get_modify_of_ne h]

/-- Writing the scales of a layer changes nothing that they depend on. -/
theorem agrees_settle (hplan : plan.Ordered) (hlayer : plan.network.layer? k = some layer)
    (hsize : k < sweep.table.size) :
    plan.Agrees layer sweep (sweep.settle k (plan.scalesFor layer sweep)) := by
  have hid := hplan.formed.id_eq hlayer
  have hget : (sweep.settle k (plan.scalesFor layer sweep)).table.get k =
      (sweep.table.get k).setScales (plan.scalesFor layer sweep) :=
    EdgeTable.get_modify_self hsize _
  refine ⟨fun hinput => ?_, fun p hp => ?_, rfl, ?_⟩
  · rw [hid, hget, LayerEdges.setScales_input_scale?]
    unfold scalesFor
    simp only [hinput, hid, Option.getD_some]
  · exact outputScale_settle_of_ne _ (hplan.formed.inputs_lt hlayer p hp).ne
  · rw [hid, hget, LayerEdges.setScales_output_aggregated?]

/-- What has been written for a layer is what follows for it from then on. -/
theorem written_settle (hplan : plan.Ordered) (hlayer : plan.network.layer? k = some layer)
    (hsize : k < sweep.table.size) :
    plan.Written layer (sweep.settle k (plan.scalesFor layer sweep)) := by
  have hget : (sweep.settle k (plan.scalesFor layer sweep)).table.get k =
      (sweep.table.get k).setScales (plan.scalesFor layer sweep) :=
    EdgeTable.get_modify_self hsize _
  unfold Written
  rw [(agrees_settle hplan hlayer hsize).scalesFor, hplan.formed.id_eq hlayer, hget,
    LayerEdges.setScales_setScales]

/-! ## One step -/

/-- A sweep stays consistent if nothing but its conflicts and its counts changes. -/
theorem Consistent.congr (hplan : plan.Ordered) (h : plan.Consistent k sweep)
    (hprocessed : after.processed = sweep.processed) (hcaps : after.caps = sweep.caps)
    (htable : after.table = sweep.table) (hconflicts : sweep.conflicts ⊆ after.conflicts) :
    plan.Consistent k after := by
  have hcap : ∀ id, after.cap? id = sweep.cap? id := by
    intro id
    unfold Sweep.cap?
    rw [hcaps]
  refine ⟨h.atLayer.congr hprocessed (congrArg Array.size hcaps), ?_, fun hlayer hlt => ?_⟩
  · rw [htable]
    exact h.size_le
  · exact (h.settled hlayer hlt).congr hplan hlayer (fun _ _ => by rw [htable])
      (fun j _ => hcap j) hconflicts

/-- A derived layer is settled once its scales are written. -/
theorem Consistent.settle (hplan : plan.Ordered) (h : plan.Consistent k sweep)
    (hlayer : plan.network.layer? k = some layer) {scales : DerivedScales}
    (hderive : (plan.derive layer sweep).2 = some scales) :
    plan.Consistent (k + 1) ((plan.derive layer sweep).1.settle k scales) := by
  obtain ⟨hnoted, rfl, hmet⟩ := derive_eq_some hderive
  rw [← scalesFor_noted hnoted]
  generalize (plan.derive layer sweep).1 = noted at hnoted hmet
  have hk := Network.lt_size hlayer
  -- Noted conflicts do not matter for what is settled so far.
  have hconsistent : plan.Consistent k noted := by
    obtain ⟨conflicts, hconflicts, rfl⟩ := hnoted
    exact h.congr hplan rfl rfl rfl hconflicts
  have hsize : k < noted.table.size := hk.trans_le hconsistent.size_le
  refine ⟨hconsistent.atLayer.settle hk _, ?_, fun {id other} hother hlt => ?_⟩
  · exact hconsistent.size_le.trans_eq (EdgeTable.size_modify _ _ _).symm
  · by_cases heq : id = k
    · -- Writing the scales of the layer does not change what they depend on.
      subst heq
      obtain rfl := Option.some.inj (hlayer.symm.trans hother)
      exact ⟨written_settle hplan hlayer hsize, hmet.congr (agrees_settle hplan hlayer hsize)
        (fun _ _ _ _ => rfl) (List.Subset.refl _)⟩
    · have hlt : id < k := by omega
      exact (hconsistent.settled hother hlt).congr hplan hother
        (fun j hj => EdgeTable.get_modify_of_ne (by omega) _) (fun _ _ => rfl) (List.Subset.refl _)

/-- A layer that asks for a restart leaves the layers before the first tightened cap settled. -/
theorem Consistent.restart (hplan : plan.Ordered) (h : plan.Consistent k sweep) (layer : Layer)
    (restarts : Nat) (restartPending : Bool) :
    ∃ k' ≤ k, plan.Consistent k'
      { (plan.derive layer sweep).1 with restarts, restartPending } := by
  obtain ⟨k', hk', htight⟩ := (plan.derive_pushed layer sweep).tightened hplan h.atLayer
  refine ⟨k', hk', htight.atLayer.congr rfl rfl, ?_, fun {id other} hother hlt => ?_⟩
  · exact h.size_le.trans_eq (congrArg EdgeTable.size htight.table).symm
  · refine (h.settled hother (by omega)).congr hplan hother (fun j _ => ?_)
      (fun j hj => htight.kept j (by omega)) htight.conflicts
    exact congrArg (·.get j) htight.table

/-- Every step keeps the sweep consistent. -/
theorem Consistent.step (hplan : plan.Ordered) (h : plan.Consistent k sweep)
    (hstep : plan.Step sweep after) : ∃ k', plan.Consistent k' after := by
  cases hstep with
  | begin => exact ⟨k, h.congr hplan rfl rfl rfl (List.Subset.refl _)⟩
  | @settle k' layer _ hat hlayer hderive =>
      obtain rfl := h.atLayer.unique hat
      exact ⟨k + 1, h.settle hplan hlayer hderive⟩
  | @restart k' layer _ _ _ =>
      obtain ⟨k', _, hconsistent⟩ := h.restart hplan layer _ true
      exact ⟨k', hconsistent⟩

theorem Consistent.reaches (hplan : plan.Ordered) (h : plan.Consistent k sweep)
    (hreaches : plan.Reaches sweep final) : ∃ k', plan.Consistent k' final := by
  induction hreaches with
  | refl => exact ⟨k, h⟩
  | tail _ hstep ih =>
      obtain ⟨k', hconsistent⟩ := ih
      exact hconsistent.step hplan hstep

/-- A sweep starts with nothing settled. -/
theorem Consistent.start {table : EdgeTable} (hsize : plan.network.size ≤ table.size) :
    plan.Consistent 0 (.start plan.network table) where
  atLayer := .start plan.network table
  size_le := hsize
  settled := fun _ hlt => absurd hlt (Nat.not_lt_zero _)

/-! ## What steps keep -/

/-- A cap after a step was there before, or the derived layer has asked for it. -/
theorem Consistent.step_cap (hplan : plan.Ordered) (h : plan.Consistent k sweep)
    (hstep : plan.Step sweep after) {cap : Single} (hcap : after.cap? id = some cap) :
    sweep.cap? id = some cap ∨
      ∃ layer, plan.network.layer? k = some layer ∧ plan.CapFor layer sweep cap := by
  have hderived : ∀ {layer}, plan.network.layer? k = some layer →
      (plan.derive layer sweep).1.cap? id = some cap →
        sweep.cap? id = some cap ∨
          ∃ layer, plan.network.layer? k = some layer ∧ plan.CapFor layer sweep cap := by
    intro layer hlayer hderive
    obtain ⟨_, _, htight⟩ := (plan.derive_pushed layer sweep).tightened hplan h.atLayer
    exact (htight.caps hderive).imp_right fun hnew => ⟨layer, hlayer, hnew⟩
  cases hstep with
  | begin => exact Or.inl hcap
  | settle hat hlayer _ =>
      obtain rfl := h.atLayer.unique hat
      exact hderived hlayer hcap
  | restart hat hlayer _ =>
      obtain rfl := h.atLayer.unique hat
      exact hderived hlayer hcap

/-- A step leaves caps as they are or tightens them. -/
theorem Consistent.step_tighter (hplan : plan.Ordered) (h : plan.Consistent k sweep)
    (hstep : plan.Step sweep after) {cap : Single} (hcap : sweep.cap? id = some cap) :
    ∃ tight, after.cap? id = some tight ∧ (tight = cap ∨ tight < cap) := by
  have hderived : ∀ {layer}, ∃ tight, (plan.derive layer sweep).1.cap? id = some tight ∧
      (tight = cap ∨ tight < cap) := by
    intro layer
    obtain ⟨_, _, htight⟩ := (plan.derive_pushed layer sweep).tightened hplan h.atLayer
    exact htight.tighter hcap
  cases hstep with
  | begin => exact ⟨cap, hcap, Or.inl rfl⟩
  | settle => exact hderived
  | restart => exact hderived

/-- A run leaves caps as they are or tightens them. -/
theorem Reaches.cap_tighter (hplan : plan.Ordered) (h : plan.Consistent k sweep)
    (hreaches : plan.Reaches sweep final) {cap : Single} (hcap : sweep.cap? id = some cap) :
    ∃ tight, final.cap? id = some tight ∧ (tight = cap ∨ tight < cap) := by
  induction hreaches with
  | refl => exact ⟨cap, hcap, Or.inl rfl⟩
  | tail hreaches hstep ih =>
      obtain ⟨k', hconsistent⟩ := h.reaches hplan hreaches
      obtain ⟨middle, hmiddle, hle⟩ := ih
      obtain ⟨tight, htight, rfl | hlt⟩ := hconsistent.step_tighter hplan hstep hmiddle
      · exact ⟨tight, htight, hle⟩
      · rcases hle with rfl | hlt'
        · exact ⟨tight, htight, Or.inr hlt⟩
        · exact ⟨tight, htight, Or.inr (Binary.lt_of_lt_of_le' hlt (Binary.le_of_lt' hlt'))⟩

/-- Deriving a layer leaves the table alone. -/
theorem Consistent.derive_table (hplan : plan.Ordered) (h : plan.Consistent k sweep)
    (layer : Layer) : (plan.derive layer sweep).1.table = sweep.table := by
  obtain ⟨_, _, htight⟩ := (plan.derive_pushed layer sweep).tightened hplan h.atLayer
  exact htight.table

/-- A step writes scales to the entry of one layer of the network, or leaves the table alone. -/
theorem Consistent.step_table (hplan : plan.Ordered) (h : plan.Consistent k sweep)
    (hstep : plan.Step sweep after) :
    after.table = sweep.table ∨ ∃ id < plan.network.size, ∃ scales,
      after.table = sweep.table.modify id (·.setScales scales) := by
  cases hstep with
  | begin => exact Or.inl rfl
  | @settle k layer scales _ hlayer _ =>
      refine Or.inr ⟨k, Network.lt_size hlayer, scales, ?_⟩
      rw [← h.derive_table hplan layer]
      rfl
  | @restart k layer _ _ _ => exact Or.inl (h.derive_table hplan layer)

/-- A run keeps whatever of an entry is not changed by writing scales. -/
theorem Reaches.entry {α : Type} (Φ : LayerEdges → α) (hplan : plan.Ordered)
    (hΦ : ∀ edges scales, Φ (edges.setScales scales) = Φ edges) (h : plan.Consistent k sweep)
    (hreaches : plan.Reaches sweep final) (id : Nat) :
    Φ (final.table.get id) = Φ (sweep.table.get id) := by
  induction hreaches with
  | refl => rfl
  | @tail middle last hreaches hstep ih =>
      obtain ⟨k', hconsistent⟩ := h.reaches hplan hreaches
      rw [← ih]
      obtain hsame | ⟨written, _, scales, hwritten⟩ := hconsistent.step_table hplan hstep
      · rw [hsame]
      · rw [hwritten, EdgeTable.get_modify]
        split
        · exact hΦ _ _
        · rfl

/-- Range-derived scales stay as they are. -/
theorem Reaches.rangeScale? (hplan : plan.Ordered) (h : plan.Consistent k sweep)
    (hreaches : plan.Reaches sweep final) (id : Nat) :
    plan.rangeScale? final id = plan.rangeScale? sweep id := by
  have hrange : (final.table.get id).output.aggregated? =
      (sweep.table.get id).output.aggregated? :=
    Reaches.entry (·.output.aggregated?) hplan
      (fun _ _ => LayerEdges.setScales_output_aggregated?) h hreaches id
  unfold SweepPlan.rangeScale? Edge.rangeScale?
  rw [hrange]

/-- A run keeps the size of the table and the entries beyond the layers of the network. -/
theorem Reaches.beyond (hplan : plan.Ordered) (h : plan.Consistent k sweep)
    (hreaches : plan.Reaches sweep final) :
    final.table.size = sweep.table.size ∧
      ∀ id, plan.network.size ≤ id → final.table.get id = sweep.table.get id := by
  induction hreaches with
  | refl => exact ⟨rfl, fun _ _ => rfl⟩
  | @tail middle last hreaches hstep ih =>
      obtain ⟨k', hconsistent⟩ := h.reaches hplan hreaches
      obtain ⟨hsize, hbeyond⟩ := ih
      obtain hsame | ⟨written, hwritten, scales, htable⟩ := hconsistent.step_table hplan hstep
      · rw [hsame]
        exact ⟨hsize, hbeyond⟩
      · rw [htable]
        refine ⟨(EdgeTable.size_modify _ _ _).trans hsize, fun id hid => ?_⟩
        rw [EdgeTable.get_modify_of_ne (by omega)]
        exact hbeyond id hid

/-- A step keeps the scale that a graph input works with. -/
theorem Consistent.step_given (hplan : plan.Ordered) (h : plan.Consistent k sweep)
    (hstep : plan.Step sweep after) (hlayer : plan.network.layer? id = some layer)
    (hkind : layer.kind = .input) :
    (after.table.get id).input.scale?.getD plan.defaultScale =
      (sweep.table.get id).input.scale?.getD plan.defaultScale := by
  cases hstep with
  | begin => rfl
  | @settle k' layer' scales _ hlayer' hderive =>
      obtain ⟨hnoted, rfl, _⟩ := derive_eq_some hderive
      show ((EdgeTable.modify _ _ _).get id).input.scale?.getD _ = _
      rw [h.derive_table hplan layer', EdgeTable.get_modify]
      split
      · rename_i heq
        obtain ⟨rfl, _⟩ := heq
        obtain rfl := Option.some.inj (hlayer.symm.trans hlayer')
        rw [LayerEdges.setScales_input_scale?, Option.getD_some]
        unfold scalesFor
        simp only [hkind, hplan.formed.id_eq hlayer]
      · rfl
  | @restart k layer _ _ _ => rw [← h.derive_table hplan layer]

/-- A run keeps the scale that a graph input works with. -/
theorem Reaches.given (hplan : plan.Ordered) (h : plan.Consistent k sweep)
    (hreaches : plan.Reaches sweep final) (hlayer : plan.network.layer? id = some layer)
    (hkind : layer.kind = .input) :
    (final.table.get id).input.scale?.getD plan.defaultScale =
      (sweep.table.get id).input.scale?.getD plan.defaultScale := by
  induction hreaches with
  | refl => rfl
  | tail hreaches hstep ih =>
      obtain ⟨k', hconsistent⟩ := h.reaches hplan hreaches
      exact (hconsistent.step_given hplan hstep hlayer hkind).trans ih

/-! ## Runs as chains of steps -/

/-- What transforming layer `k` comes to: its scales are written, or it asks for a restart, which is
counted and granted as long as restarts are left. -/
inductive Transformed (plan : SweepPlan) (k : Nat) (layer : Layer) (sweep : Sweep) :
    Sweep × Except Error Unit → Prop where
  | settled {scales : DerivedScales} :
      (plan.derive layer sweep).2 = some scales →
      Transformed plan k layer sweep ((plan.derive layer sweep).1.settle k scales, .ok ())
  | restarted :
      (plan.derive layer sweep).2 = none → sweep.restarts < plan.maxRestarts →
      Transformed plan k layer sweep
        ({ (plan.derive layer sweep).1 with
          restarts := (plan.derive layer sweep).1.restarts + 1, restartPending := true }, .ok ())
  | exhausted :
      (plan.derive layer sweep).2 = none → plan.maxRestarts ≤ sweep.restarts →
      Transformed plan k layer sweep
        ({ (plan.derive layer sweep).1 with
          restarts := (plan.derive layer sweep).1.restarts + 1 },
          .error (.scaleNotConverged plan.maxRestarts))

/-- Deriving a layer neither counts nor schedules a restart. -/
theorem Consistent.derive_restarts (hplan : plan.Ordered) (h : plan.Consistent k sweep)
    (layer : Layer) : (plan.derive layer sweep).1.restarts = sweep.restarts ∧
      (plan.derive layer sweep).1.restartPending = sweep.restartPending := by
  obtain ⟨_, _, htight⟩ := (plan.derive_pushed layer sweep).tightened hplan h.atLayer
  exact ⟨htight.restarts, htight.restartPending⟩

/-- Transforming a layer with an entry derives its scales and writes them, or schedules a restart. -/
theorem transform_eq (hlayer : plan.network.layer? k = some layer) (hsize : k < sweep.table.size) :
    plan.transform k sweep =
      match (plan.derive layer sweep).2 with
      | some scales => ((plan.derive layer sweep).1.settle k scales, .ok ())
      | none => plan.scheduleRestart (plan.derive layer sweep).1 := by
  unfold transform
  simp only [hlayer, Nat.not_le.2 hsize, if_false]
  cases plan.derive layer sweep with
  | mk found result => cases result <;> rfl

theorem Consistent.transformed (hplan : plan.Ordered) (h : plan.Consistent k sweep)
    (hlayer : plan.network.layer? k = some layer) :
    plan.Transformed k layer sweep (plan.transform k sweep) := by
  have hrestarts := (h.derive_restarts hplan layer).1
  rw [transform_eq hlayer ((Network.lt_size hlayer).trans_le h.size_le)]
  cases hderive : (plan.derive layer sweep).2 with
  | some scales => exact .settled hderive
  | none =>
      simp only [scheduleRestart]
      by_cases hover : plan.maxRestarts < (plan.derive layer sweep).1.restarts + 1
      · simp only [hover, if_true]
        exact .exhausted hderive (by omega)
      · simp only [hover, if_false]
        exact .restarted hderive (by omega)

/-- The unprocessed layers are those from the first unprocessed one on. -/
theorem Ordered.unprocessed_eq (hplan : plan.Ordered)
    (h : sweep.AtLayer plan.network.size k) :
    plan.unprocessed sweep = List.range' k (plan.network.size - k) := by
  have hsplit : List.range plan.network.size =
      List.range' 0 k ++ List.range' k (plan.network.size - k) := by
    rw [List.range_eq_range', ← Nat.add_sub_cancel' h.le_size, ← List.range'_append_1,
      Nat.zero_add, Nat.add_sub_cancel_left]
  have hlow : (List.range' 0 k).filter (!sweep.isProcessed ·) = [] := by
    rw [List.filter_eq_nil_iff]
    intro id hid
    rw [List.mem_range'_1] at hid
    have := (h.processed_iff id (by have := h.le_size; omega)).2 (by omega)
    simp [this]
  have hhigh : (List.range' k (plan.network.size - k)).filter (!sweep.isProcessed ·) =
      List.range' k (plan.network.size - k) := by
    rw [List.filter_eq_self]
    intro id hid
    rw [List.mem_range'_1] at hid
    have hiff := h.processed_iff id (by omega)
    cases hprocessed : sweep.isProcessed id with
    | false => rfl
    | true =>
        have := hiff.1 hprocessed
        omega
  unfold unprocessed
  rw [hplan.order_eq, hsplit, List.filter_append, hlow, hhigh, List.nil_append]

/-- How a pass ends: every layer is processed, or one of its layers has asked for a restart, which
is granted or was one too many. -/
inductive PassEnds (plan : SweepPlan) (sweep : Sweep) : Sweep × Except Error Unit → Prop where
  | finished {after : Sweep} :
      plan.Reaches sweep after → after.allProcessed = true → after.restartPending = false →
      after.restarts = sweep.restarts → PassEnds plan sweep (after, .ok ())
  | restarted {after : Sweep} :
      plan.Reaches sweep after → after.allProcessed = false →
      after.restarts = sweep.restarts + 1 → after.restarts ≤ plan.maxRestarts →
      PassEnds plan sweep (after, .ok ())
  | exhausted {after : Sweep} :
      plan.maxRestarts < after.restarts → after.restarts = sweep.restarts + 1 →
      PassEnds plan sweep (after, .error (.scaleNotConverged plan.maxRestarts))

/-- A pass that begins with a step ends as the rest of it does. -/
theorem PassEnds.head {result : Sweep × Except Error Unit} (hstep : plan.Step sweep after)
    (hrestarts : after.restarts = sweep.restarts) (h : plan.PassEnds after result) :
    plan.PassEnds sweep result := by
  cases h with
  | finished hreaches hall hpending hsame =>
      exact .finished (.head hstep hreaches) hall hpending (hsame.trans hrestarts)
  | restarted hreaches hall hcount hle =>
      exact .restarted (.head hstep hreaches) hall (by omega) hle
  | exhausted hover hcount => exact .exhausted hover (by omega)

/-- A pass over the layers from the first unprocessed one on. -/
theorem Consistent.pass (hplan : plan.Ordered) (count : Nat) (h : plan.Consistent k sweep)
    (hcount : k + count = plan.network.size) (hpending : sweep.restartPending = false) :
    plan.PassEnds sweep (plan.pass (List.range' k count) sweep) := by
  induction count generalizing k sweep with
  | zero => exact .finished .refl (h.atLayer.allProcessed_iff.2 (by omega)) hpending rfl
  | succ count ih =>
      obtain ⟨layer, hlayer⟩ := Network.exists_layer (show k < plan.network.size by omega)
      obtain ⟨hrestarts, hsame⟩ := h.derive_restarts hplan layer
      have htransformed := h.transformed hplan hlayer
      rw [List.range'_succ]
      unfold SweepPlan.pass
      generalize plan.transform k sweep = result at htransformed ⊢
      cases htransformed with
      | @settled scales hderive =>
          -- The layer is settled, and the pass goes on with the next one.
          have hstep := Step.settle h.atLayer hlayer hderive
          have hloose : ((plan.derive layer sweep).1.settle k scales).restartPending = false :=
            hsame.trans hpending
          simp only [hloose, Bool.false_eq_true, if_false]
          exact .head hstep hrestarts (ih (h.settle hplan hlayer hderive) (by omega) hloose)
      | restarted hderive hleft =>
          have hstep := Step.restart h.atLayer hlayer hderive
          obtain ⟨k', hk', hconsistent⟩ :=
            h.restart hplan layer ((plan.derive layer sweep).1.restarts + 1) true
          have hopen : Sweep.allProcessed { (plan.derive layer sweep).1 with
              restarts := (plan.derive layer sweep).1.restarts + 1, restartPending := true } =
              false := by
            rw [← Bool.not_eq_true, hconsistent.atLayer.allProcessed_iff]
            omega
          simp only [if_true]
          exact .restarted (.single hstep) hopen (congrArg (· + 1) hrestarts)
            (by simp only [hrestarts]; omega)
      | exhausted hderive hleft =>
          exact .exhausted (by simp only [hrestarts]; omega) (congrArg (· + 1) hrestarts)

/-- How a run ends: every layer is processed, or one restart too many was asked for. -/
inductive RunEnds (plan : SweepPlan) (sweep : Sweep) : Sweep × Except Error Unit → Prop where
  | finished {final : Sweep} :
      plan.Reaches sweep final → final.allProcessed = true → final.restartPending = false →
      final.restarts ≤ plan.maxRestarts → RunEnds plan sweep (final, .ok ())
  | exhausted {final : Sweep} :
      final.restarts = plan.maxRestarts + 1 →
      RunEnds plan sweep (final, .error (.scaleNotConverged plan.maxRestarts))

theorem RunEnds.of_reaches {result : Sweep × Except Error Unit}
    (hreaches : plan.Reaches sweep after) (h : plan.RunEnds after result) :
    plan.RunEnds sweep result := by
  cases h with
  | finished hlater hall hpending hle => exact .finished (hreaches.trans hlater) hall hpending hle
  | exhausted hover => exact .exhausted hover

/-- Beginning a pass finds the first unprocessed layers and leaves the sweep consistent. -/
theorem Consistent.startPass (hplan : plan.Ordered) (h : plan.Consistent k sweep) :
    plan.Consistent k (plan.startPass sweep).1 ∧
      plan.startPass sweep =
        ((plan.startPass sweep).1, List.range' k (plan.network.size - k)) := by
  have hbegun : plan.Consistent k (plan.startPass sweep).1 :=
    h.congr hplan rfl rfl rfl (List.Subset.refl _)
  exact ⟨hbegun, Prod.ext rfl (hplan.unprocessed_eq h.atLayer)⟩

/-- Once every layer is processed, no further pass is made. -/
theorem passes_of_allProcessed (count : Nat) (h : sweep.allProcessed = true) :
    plan.passes count sweep = (sweep, .ok ()) := by
  cases count with
  | zero => rfl
  | succ count =>
      unfold SweepPlan.passes
      rw [if_pos h]

/-- One more pass than there are restarts left is enough for a run. -/
theorem Consistent.passes (hplan : plan.Ordered) (count : Nat) (h : plan.Consistent k sweep)
    (hpending : sweep.allProcessed = true → sweep.restartPending = false)
    (hrestarts : sweep.restarts ≤ plan.maxRestarts)
    (hcount : plan.maxRestarts < sweep.restarts + count) :
    plan.RunEnds sweep (plan.passes count sweep) := by
  induction count generalizing k sweep with
  | zero => omega
  | succ count ih =>
      unfold SweepPlan.passes
      cases hdone : sweep.allProcessed with
      | true =>
          simp only [if_true]
          exact .finished .refl hdone (hpending hdone) hrestarts
      | false =>
          obtain ⟨hbegun, hstart⟩ := h.startPass hplan
          have hbegin : plan.Step sweep (plan.startPass sweep).1 := .begin sweep
          have hsize := h.atLayer.le_size
          have hends := hbegun.pass hplan (plan.network.size - k) (by omega) rfl
          rw [hstart]
          simp only [Bool.false_eq_true, if_false]
          generalize plan.pass (List.range' k (plan.network.size - k)) (plan.startPass sweep).1 =
            result at hends ⊢
          cases hends with
          | finished hreaches hall hloose hsame =>
              simp only [passes_of_allProcessed count hall]
              exact .finished (.head hbegin hreaches) hall hloose (hsame.trans_le hrestarts)
          | restarted hreaches hopen hmore hle =>
              -- A pass that ends early has used up one restart.
              obtain ⟨k', hnext⟩ := hbegun.reaches hplan hreaches
              have hused : (plan.startPass sweep).1.restarts = sweep.restarts := rfl
              have hends := ih hnext (fun hall => by simp [hopen] at hall) hle (by omega)
              exact hends.of_reaches (.head hbegin hreaches)
          | exhausted hover hmore =>
              have hused : (plan.startPass sweep).1.restarts = sweep.restarts := rfl
              exact .exhausted (by omega)

/-- A run that starts from a table with an entry for every layer ends. -/
theorem run_ends {table : EdgeTable} (hplan : plan.Ordered)
    (hsize : plan.network.size ≤ table.size) :
    plan.RunEnds (.start plan.network table) (plan.run (.start plan.network table)) := by
  have hstart : plan.Consistent 0 (.start plan.network table) := .start hsize
  have hpasses : plan.run (.start plan.network table) =
      plan.passes (plan.maxRestarts + 1) (.start plan.network table) :=
    if_neg (Nat.not_lt.2 hsize)
  rw [hpasses]
  exact hstart.passes hplan _ (fun _ => rfl) (Nat.zero_le _) (by
    show plan.maxRestarts < 0 + (plan.maxRestarts + 1)
    omega)

/-- A run that succeeds is a chain of steps after which every layer is settled and no restart is
pending. -/
theorem run_consistent {table : EdgeTable} (hplan : plan.Ordered)
    (h : plan.run (.start plan.network table) = (final, .ok ())) :
    plan.network.size ≤ table.size ∧ plan.Reaches (.start plan.network table) final ∧
      plan.Consistent plan.network.size final ∧ final.restartPending = false := by
  have hsize : plan.network.size ≤ table.size := by
    unfold run at h
    split at h
    · cases h
    · rename_i hsize
      exact Nat.le_of_not_lt hsize
  have hends := run_ends hplan hsize
  rw [h] at hends
  obtain ⟨hreaches, hall, hpending, _⟩ := hends
  obtain ⟨k, hconsistent⟩ := (Consistent.start hsize).reaches hplan hreaches
  obtain rfl := hconsistent.atLayer.allProcessed_iff.1 hall
  exact ⟨hsize, hreaches, hconsistent, hpending⟩

end SweepPlan

end LayerQuant
