import Mathlib
import LayerQuant.Proofs.Derivation
import LayerQuant.Proofs.RangeScale
import LayerQuant.Proofs.TopologicalOrder
import LayerQuant.Sweep.Run

/-!
# The steps of a sweep

A sweep derives the first unprocessed layer, again and again. The processed layers are always the
first ones (`Sweep.AtLayer`); a layer that pushes caps cuts them back to those before the first
layer whose cap was tightened (`Pushed.tightened`).
-/

namespace LayerQuant

namespace Sweep

/-- The processed layers are the first `k` ones. -/
structure AtLayer (size k : Nat) (sweep : Sweep) : Prop where
  le_size : k ≤ size
  processed_size : sweep.processed.size = size
  caps_size : sweep.caps.size = size
  processed_iff : ∀ id < size, sweep.isProcessed id = true ↔ id < k

variable {sweep : Sweep} {size k id other : Nat}

theorem isProcessed_unprocess (sweep : Sweep) (ids : List Nat) (id : Nat) :
    (sweep.unprocess ids).isProcessed id = true ↔ sweep.isProcessed id = true ∧ id ∉ ids := by
  unfold unprocess isProcessed
  dsimp only
  generalize sweep.processed = processed
  induction ids generalizing processed with
  | nil => simp
  | cons first rest ih =>
      rw [List.foldl_cons, ih]
      simp only [Array.getD_eq_getD_getElem?, Array.getElem?_setIfInBounds, List.mem_cons, not_or]
      by_cases hid : id = first
      · subst hid
        by_cases hsize : id < processed.size <;> simp [hsize]
      · simp [hid, Ne.symm hid]

@[simp] theorem size_unprocess (sweep : Sweep) (ids : List Nat) :
    (sweep.unprocess ids).processed.size = sweep.processed.size := by
  unfold unprocess
  dsimp only
  generalize sweep.processed = processed
  induction ids generalizing processed with
  | nil => rfl
  | cons first rest ih => rw [List.foldl_cons, ih, Array.size_setIfInBounds]

/-- Only the flags and the number of caps say which layers are processed. -/
theorem AtLayer.congr {after : Sweep} (h : AtLayer size k sweep)
    (hprocessed : after.processed = sweep.processed) (hcaps : after.caps.size = sweep.caps.size) :
    AtLayer size k after where
  le_size := h.le_size
  processed_size := by
    rw [hprocessed]
    exact h.processed_size
  caps_size := hcaps.trans h.caps_size
  processed_iff := by
    unfold isProcessed
    rw [hprocessed]
    exact h.processed_iff

theorem AtLayer.start (network : Network) (table : EdgeTable) :
    AtLayer network.size 0 (.start network table) :=
  ⟨Nat.zero_le _, by simp [Sweep.start], by simp [Sweep.start],
    fun id hid => by simp [Sweep.start, isProcessed, hid]⟩

/-- A sweep starts without caps. -/
@[simp] theorem cap?_start (network : Network) (table : EdgeTable) (id : Nat) :
    (Sweep.start network table).cap? id = none := by
  by_cases hid : id < network.size <;> simp [Sweep.start, cap?, hid]

/-- Only the first layers are processed. -/
theorem AtLayer.lt_of_isProcessed (h : AtLayer size k sweep) (hid : sweep.isProcessed id = true) :
    id < k := by
  have hset : sweep.processed.getD id false ≠ false := ne_false_of_eq_true hid
  have hsize : id < size := (lt_of_getD_ne hset).trans_eq h.processed_size
  exact (h.processed_iff id hsize).1 hid

/-- The number of processed layers is determined by the sweep. -/
theorem AtLayer.unique {k' : Nat} (h : AtLayer size k sweep) (h' : AtLayer size k' sweep) :
    k = k' := by
  have hsize := h.le_size
  have hsize' := h'.le_size
  rcases Nat.lt_trichotomy k k' with hlt | rfl | hlt
  · have := (h.processed_iff k (by omega)).1 ((h'.processed_iff k (by omega)).2 hlt)
    omega
  · rfl
  · have := (h'.processed_iff k' (by omega)).1 ((h.processed_iff k' (by omega)).2 hlt)
    omega

theorem isProcessed_settle (hid : id < sweep.processed.size) (scales : DerivedScales) :
    (sweep.settle id scales).isProcessed other = true ↔
      other = id ∨ sweep.isProcessed other = true := by
  unfold settle isProcessed
  rw [getD_set hid]
  split
  · rename_i heq
    simp [heq]
  · rename_i hne
    simp [hne]

/-- Settling the first unprocessed layer processes it. -/
theorem AtLayer.settle (h : AtLayer size k sweep) (hk : k < size) (scales : DerivedScales) :
    AtLayer size (k + 1) (sweep.settle k scales) where
  le_size := hk
  processed_size := by simp [Sweep.settle, h.processed_size]
  caps_size := h.caps_size
  processed_iff := by
    intro id hid
    rw [isProcessed_settle (by rwa [h.processed_size]), h.processed_iff id hid]
    omega

theorem allProcessed_iff (sweep : Sweep) :
    sweep.allProcessed = true ↔ ∀ id < sweep.processed.size, sweep.isProcessed id = true := by
  unfold allProcessed isProcessed
  rw [Array.all_eq_true]
  refine forall_congr' fun id => forall_congr' fun hid => ?_
  simp [Array.getD_eq_getD_getElem?, hid]

/-- All layers are processed exactly if the sweep has come to the end. -/
theorem AtLayer.allProcessed_iff (h : AtLayer size k sweep) :
    sweep.allProcessed = true ↔ k = size := by
  rw [sweep.allProcessed_iff, h.processed_size]
  constructor
  · intro hall
    by_contra hne
    have hk : k < size := lt_of_le_of_ne h.le_size hne
    have := (h.processed_iff k hk).1 (hall k hk)
    omega
  · rintro rfl id hid
    exact (h.processed_iff id hid).2 hid

theorem cap?_set (sweep : Sweep) (id : Nat) (cap : Single) (hid : id < sweep.caps.size)
    (other : Nat) :
    (sweep.caps.setIfInBounds id (some cap)).getD other none =
      if other = id then some cap else sweep.cap? other := by
  exact getD_set hid (some cap) none other

/-- The sweep `after` was made from `before` by noting conflicts and by tightening caps to values
with the property `P`, which has left the first `k` layers processed. -/
structure Tightened (size k : Nat) (P : Single → Prop) (before after : Sweep) : Prop where
  atLayer : after.AtLayer size k
  table : after.table = before.table
  conflicts : before.conflicts ⊆ after.conflicts
  kept : ∀ id < k, after.cap? id = before.cap? id
  caps : ∀ {id cap}, after.cap? id = some cap → before.cap? id = some cap ∨ P cap
  tighter : ∀ {id cap}, before.cap? id = some cap →
    ∃ tight, after.cap? id = some tight ∧ (tight = cap ∨ tight < cap)
  restarts : after.restarts = before.restarts
  restartPending : after.restartPending = before.restartPending

end Sweep

namespace SweepPlan

/-- The plan goes through a well-formed network in the order of its layers. -/
structure Ordered (plan : SweepPlan) : Prop where
  formed : plan.network.WellFormed
  order_eq : plan.order = List.range plan.network.size

/-- The plan that a usable configuration makes for a well-formed network. -/
structure Standard (plan : SweepPlan) : Prop extends plan.Ordered where
  rule : plan.rule.Usable
  zero_lt_default : .zero < plan.defaultScale
  default_finite : plan.defaultScale.isFinite = true

/-- Every configuration, usable or not, has a plan for a network that was built: the layers in their
order under the settings of the configuration. -/
theorem sweepPlan_of_built {network : Network} (hbuilt : network.Built) (config : Config) :
    config.sweepPlan network = .ok
      { network, order := List.range network.size, rule := config.scaleRule,
        defaultScale := config.defaultScale, precision := config.weightsPrecision,
        maxRestarts := config.maxRestarts } := by
  unfold Config.sweepPlan
  rw [hbuilt.wellFormed.topologicalOrder_eq]
  rfl

/-- The plan of a configuration is in order and takes its settings from where they are given. -/
theorem sweepPlan_eq_ok {config : Config} {network : Network} {plan : SweepPlan}
    (hbuilt : network.Built) (h : config.sweepPlan network = .ok plan) :
    plan.Ordered ∧ plan =
      { network, order := List.range network.size, rule := config.scaleRule,
        defaultScale := config.defaultScale, precision := config.weightsPrecision,
        maxRestarts := config.maxRestarts } := by
  rw [sweepPlan_of_built hbuilt] at h
  obtain rfl := Except.ok.inj h
  exact ⟨⟨hbuilt.wellFormed, rfl⟩, rfl⟩

/-- The plan of a usable configuration is standard and takes its network and rule from where they
are given. -/
theorem standard_of_sweepPlan {config : Config} {network : Network} {plan : SweepPlan}
    (hbuilt : network.Built) (hvalid : config.validate = .ok ())
    (h : config.sweepPlan network = .ok plan) :
    plan.Standard ∧ plan.network = network ∧ plan.rule = config.scaleRule := by
  have husable := Config.usable_of_validate hvalid
  obtain ⟨hordered, rfl⟩ := sweepPlan_eq_ok hbuilt h
  exact ⟨⟨hordered, husable.rule, husable.zero_lt_default, husable.default_finite⟩, rfl, rfl⟩

variable {plan : SweepPlan} {sweep after : Sweep} {layer : Layer} {k : Nat}

/-- In the order of the layers, the ones from a layer on begin at the position that is its id. -/
theorem Ordered.onwards_eq (hplan : plan.Ordered) {id : Nat} (hid : id < plan.network.size) :
    plan.onwards id = (List.range plan.network.size).drop id := by
  have hindex : (List.range plan.network.size).idxOf id = id := by
    have hlength : id < (List.range plan.network.size).length := by simpa using hid
    have hposition := List.nodup_range.idxOf_getElem id hlength
    rwa [List.getElem_range] at hposition
  unfold onwards
  rw [hplan.order_eq, hindex]

/-- From a layer on come the layers that are not before it. -/
theorem Ordered.mem_onwards (hplan : plan.Ordered) {id other : Nat}
    (hid : id < plan.network.size) :
    other ∈ plan.onwards id ↔ id ≤ other ∧ other < plan.network.size := by
  rw [hplan.onwards_eq hid, List.mem_drop_iff_getElem]
  constructor
  · rintro ⟨i, hi, rfl⟩
    simp only [List.length_range] at hi
    simp only [List.getElem_range]
    omega
  · rintro ⟨hle, hlt⟩
    refine ⟨other - id, ?_, ?_⟩
    · simp only [List.length_range]
      omega
    · simp only [List.getElem_range]
      omega

/-- Pushing caps leaves the layers before the first tightened one processed. -/
theorem Pushed.tightened (hplan : plan.Ordered) {P : Single → Prop} {before after : Sweep}
    (h : plan.Pushed P before after) (hat : before.AtLayer plan.network.size k) :
    ∃ k' ≤ k, Sweep.Tightened plan.network.size k' P before after := by
  induction h with
  | refl =>
      exact ⟨k, le_rfl, hat, rfl, List.Subset.refl _, fun _ _ => rfl, Or.inl,
        fun hcap => ⟨_, hcap, Or.inl rfl⟩, rfl, rfl⟩
  | @note middle conflict _ ih =>
      obtain ⟨k', hk', htight⟩ := ih
      obtain ⟨⟨noted, hnoted, heq⟩, _⟩ := middle.noted_noteConflict conflict
      rw [heq]
      exact ⟨k', hk', htight.atLayer.congr rfl rfl, htight.table,
        List.Subset.trans htight.conflicts hnoted, htight.kept, htight.caps, htight.tighter,
        htight.restarts, htight.restartPending⟩
  | @tighten middle id layer cap _ hP hlayer hkind hknown ih =>
      obtain ⟨k', hk', htight⟩ := ih
      have hid := Network.lt_size hlayer
      have hcap := middle.cap?_set id cap (by rwa [htight.atLayer.caps_size])
      refine ⟨min k' id, by omega, ⟨by omega, ?_, ?_, fun other hother => ?_⟩, htight.table,
        htight.conflicts, fun other hother => ?_, fun {other cap'} hsome => ?_,
        fun {other cap'} hsome => ?_, htight.restarts, htight.restartPending⟩
      · exact (middle.size_unprocess _).trans htight.atLayer.processed_size
      · simpa using htight.atLayer.caps_size
      · -- The layers from the tightened one on are unprocessed, whatever was processed before.
        have hiff := middle.isProcessed_unprocess (plan.onwards id) other
        rw [hplan.mem_onwards hid, htight.atLayer.processed_iff other hother] at hiff
        refine hiff.trans ?_
        omega
      · rw [← htight.kept other (by omega)]
        exact (hcap other).trans (if_neg (by omega))
      · have hsome' := (hcap other).symm.trans hsome
        split at hsome'
        · exact Or.inr (Option.some.inj hsome' ▸ hP)
        · exact htight.caps hsome'
      · obtain ⟨tight, hmiddle, hle⟩ := htight.tighter hsome
        by_cases heq : other = id
        · subst heq
          refine ⟨cap, (hcap other).trans (if_pos rfl), Or.inr ?_⟩
          have hlt := hknown tight hmiddle
          rcases hle with rfl | hlt'
          · exact hlt
          · exact Binary.lt_of_lt_of_le' hlt (Binary.le_of_lt' hlt')
        · exact ⟨tight, ((hcap other).trans (if_neg heq)).trans hmiddle, hle⟩

end SweepPlan

end LayerQuant
