import Mathlib
import LayerQuant.Proofs.CheckedSweep
import LayerQuant.Proofs.SweepBudget

/-!
# What a pushed cap changes

A cap that is pushed from a layer arrives at the layers that `Network.CapReaches` names. Those that
choose their own scale keep the smaller of their cap and the new one, the graph inputs have a
conflict with the consumer, and the layers from the first lowered cap on are unprocessed. Nothing
else changes. `PlacesCap` says so of any layers at which a cap has arrived, and each arrival keeps it
(`PlacesCap.place`), also one at a layer that was reached before.
-/

namespace LayerQuant

namespace Network

/-- A graph input does not choose its own scale. -/
theorem IsSource.not_rescales {network : Network} {id : Nat} (h : network.IsSource id) :
    ¬ network.Rescales id := by
  rintro ⟨layer, hlayer, hrescales⟩
  obtain ⟨source, hsource, hinput⟩ := h
  obtain rfl := Option.some.inj (hlayer.symm.trans hsource)
  rw [SweepPlan.isInput_of_canRescale hrescales] at hinput
  cases hinput

end Network

namespace Sweep

/-- The cap of a layer at which another one has arrived, the smaller of the two. -/
def capUnder (sweep : Sweep) (cap : Single) (id : Nat) : Single :=
  match sweep.cap? id with
  | some known => cap.minimum known
  | none => cap

/-- The cap of the layer is lower in the second sweep, or is there for the first time. -/
def LoweredAt (before after : Sweep) (id : Nat) : Prop :=
  ∃ cap, after.cap? id = some cap ∧ before.Yields cap id

/-- All caps are numbers. -/
def HasNumberCaps (sweep : Sweep) : Prop :=
  ∀ id cap, sweep.cap? id = some cap → cap.isNaN = false

variable {before after sweep : Sweep} {cap : Single} {id : Nat}

theorem capUnder_of_yields (h : sweep.Yields cap id) : sweep.capUnder cap id = cap := by
  unfold capUnder
  cases hcap : sweep.cap? id with
  | none => rfl
  | some known => exact Binary.minimum_of_lt (h known hcap)

theorem capUnder_of_not_lt {known : Single} (hcaps : sweep.HasNumberCaps)
    (hcap : sweep.cap? id = some known) (h : ¬ cap < known) : sweep.capUnder cap id = known := by
  unfold capUnder
  rw [hcap]
  exact Binary.minimum_of_not_lt (hcaps id known hcap) h

theorem not_lt_capUnder : ¬ cap < sweep.capUnder cap id := by
  unfold capUnder
  cases sweep.cap? id with
  | none => exact Binary.not_lt_self
  | some known => exact Binary.not_lt_minimum

/-- A conflict that is not known yet is noted. -/
theorem noteConflict_of_not_hasConflict {conflict : ScaleConflict}
    (h : ¬ sweep.HasConflict conflict.layer conflict.input) :
    sweep.noteConflict conflict = { sweep with conflicts := sweep.conflicts ++ [conflict] } := by
  refine if_neg fun hknown => h ?_
  obtain ⟨c, hc, heq⟩ := List.any_eq_true.1 hknown
  exact ⟨c, hc, by simpa using heq⟩

/-- Only layers of the sweep have caps. -/
theorem lt_of_cap? (h : sweep.cap? id = some cap) : id < sweep.caps.size := by
  refine lt_of_getD_ne (show sweep.cap? id ≠ none from ?_)
  rw [h]
  exact Option.some_ne_none cap

/-- A cap that has not changed is not lower. -/
theorem not_loweredAt (h : after.cap? id = before.cap? id) : ¬ before.LoweredAt after id := by
  rintro ⟨cap, hcap, hyields⟩
  exact Binary.not_lt_self (hyields cap (h.symm.trans hcap))

end Sweep

namespace SweepPlan

variable {plan : SweepPlan} {before : Sweep} {result : Sweep × Bool} {cap : Single}
  {consumer id : Nat} {reached : Nat → Prop}

/-! ## The arrival at several layers -/

/-- What the arrival of a cap at some layers changes: the caps of those that choose their own scale,
the conflicts of the consumer with those that are graph inputs, and the flags of the layers from the
first lowered cap on. The flag of the result says whether a cap was lowered. -/
structure PlacesCap (plan : SweepPlan) (cap : Single) (consumer : Nat) (reached : Nat → Prop)
    (before : Sweep) (result : Sweep × Bool) : Prop where
  rescaled : ∀ {id}, reached id → plan.network.Rescales id →
    result.1.cap? id = some (before.capUnder cap id)
  others : ∀ {id}, ¬ (reached id ∧ plan.network.Rescales id) →
    result.1.cap? id = before.cap? id
  conflicts : ∃ noted, result.1.conflicts = before.conflicts ++ noted ∧
    (noted.map (·.input)).Nodup ∧
    ∀ c, c ∈ noted ↔ reached c.input ∧ plan.network.IsSource c.input ∧
      ¬ before.HasConflict consumer c.input ∧
      c = ⟨consumer, c.input, cap, before.outputScale c.input⟩
  lowered_iff : result.2 = true ↔ before.Lowered result.1
  processed_iff : ∀ id, result.1.isProcessed id = true ↔
    before.isProcessed id = true ∧
      ∀ lowered, before.LoweredAt result.1 lowered → id ∉ plan.onwards lowered
  framed : before.Framed result.1

/-- Before a cap arrives anywhere nothing has changed. -/
theorem PlacesCap.start (before : Sweep) :
    plan.PlacesCap cap consumer (fun _ => False) before (before, false) where
  rescaled := False.elim
  others := fun _ => rfl
  conflicts := ⟨[], by simp⟩
  lowered_iff := by
    refine iff_of_false Bool.false_ne_true ?_
    rintro ⟨id, hlowered⟩
    exact Sweep.not_loweredAt rfl hlowered
  processed_iff := by
    refine fun id => ⟨fun h => ⟨h, fun lowered hlowered => ?_⟩, And.left⟩
    exact absurd hlowered (Sweep.not_loweredAt rfl)
  framed := ⟨rfl, rfl, rfl, rfl, rfl⟩

/-- Only reached layers at which caps stop matter. -/
theorem PlacesCap.congr {reached' : Nat → Prop}
    (h : plan.PlacesCap cap consumer reached before result)
    (hiff : ∀ id, plan.network.IsSource id ∨ plan.network.Rescales id →
      (reached' id ↔ reached id)) :
    plan.PlacesCap cap consumer reached' before result where
  rescaled := fun {id} hreached hrescales =>
    h.rescaled ((hiff id (Or.inr hrescales)).1 hreached) hrescales
  others := by
    intro id hother
    refine h.others fun ⟨hreached, hrescales⟩ => hother ⟨?_, hrescales⟩
    exact (hiff id (Or.inr hrescales)).2 hreached
  conflicts := by
    obtain ⟨noted, hconflicts, hnodup, hmem⟩ := h.conflicts
    refine ⟨noted, hconflicts, hnodup, fun c => (hmem c).trans ?_⟩
    constructor
    · rintro ⟨hreached, hsource, hnew⟩
      exact ⟨(hiff _ (Or.inl hsource)).2 hreached, hsource, hnew⟩
    · rintro ⟨hreached, hsource, hnew⟩
      exact ⟨(hiff _ (Or.inl hsource)).1 hreached, hsource, hnew⟩
  lowered_iff := h.lowered_iff
  processed_iff := h.processed_iff
  framed := h.framed

/-- A cap that is held already has arrived. -/
theorem PlacesCap.held (h : plan.PlacesCap cap consumer reached before result)
    (hcaps : before.HasNumberCaps) (hheld : plan.HoldsCap cap consumer result.1 id) :
    plan.PlacesCap cap consumer (fun other => reached other ∨ other = id) before result where
  rescaled := by
    rintro other hother hrescales
    by_cases hreached : reached other
    · exact h.rescaled hreached hrescales
    obtain rfl := hother.resolve_left hreached
    obtain ⟨layer, hlayer, hkind⟩ := hrescales
    obtain ⟨known, hknown, hloose⟩ := (hheld layer hlayer).2 (isInput_of_canRescale hkind)
    have hsame := h.others fun hboth => hreached hboth.1
    rw [hknown, Sweep.capUnder_of_not_lt hcaps (hsame.symm.trans hknown) hloose]
  others := fun hother => h.others fun ⟨hreached, hrescales⟩ =>
    hother ⟨Or.inl hreached, hrescales⟩
  conflicts := by
    obtain ⟨noted, hconflicts, hnodup, hmem⟩ := h.conflicts
    refine ⟨noted, hconflicts, hnodup, fun c => (hmem c).trans ?_⟩
    refine ⟨fun ⟨hreached, hrest⟩ => ⟨Or.inl hreached, hrest⟩, ?_⟩
    rintro ⟨hreached, hsource, hnew, heq⟩
    refine ⟨hreached.elim (fun hold => hold) fun hid => ?_, hsource, hnew, heq⟩
    -- The conflict that is held was not there before, so it was noted when the input was reached.
    obtain ⟨source, hlayer, hinput⟩ := hsource
    rw [hid] at hlayer hnew ⊢
    obtain ⟨known, hknown, hpair⟩ := (hheld source hlayer).1 hinput
    rw [hconflicts] at hknown
    rcases List.mem_append.1 hknown with hold | hnoted
    · exact absurd ⟨known, hold, hpair⟩ hnew
    · rw [← hpair.2]
      exact ((hmem known).1 hnoted).1
  lowered_iff := h.lowered_iff
  processed_iff := h.processed_iff
  framed := h.framed

/-- A conflict that is noted is the only one with its graph input. -/
theorem PlacesCap.noted (h : plan.PlacesCap cap consumer reached before result)
    (hsource : plan.network.IsSource id) (hnew : ¬ result.1.HasConflict consumer id) :
    plan.PlacesCap cap consumer (fun other => reached other ∨ other = id) before
      (result.1.noteConflict ⟨consumer, id, cap, result.1.outputScale id⟩, result.2) := by
  rw [Sweep.noteConflict_of_not_hasConflict hnew]
  refine ⟨?_, fun hother => h.others fun ⟨hreached, hrescales⟩ =>
    hother ⟨Or.inl hreached, hrescales⟩, ?_, h.lowered_iff, h.processed_iff,
    ⟨h.framed.processed_size, h.framed.caps_size, h.framed.table, h.framed.restarts,
      h.framed.restartPending⟩⟩
  · rintro other (hreached | rfl) hrescales
    · exact h.rescaled hreached hrescales
    · exact absurd hrescales hsource.not_rescales
  · obtain ⟨noted, hconflicts, hnodup, hmem⟩ := h.conflicts
    have hscale : result.1.outputScale = before.outputScale := by
      unfold Sweep.outputScale
      rw [h.framed.table]
    have hbefore : ¬ before.HasConflict consumer id := by
      rintro ⟨c, hc, hpair⟩
      exact hnew ⟨c, hconflicts ▸ List.mem_append_left _ hc, hpair⟩
    have hfresh : ∀ c ∈ noted, c.input ≠ id := by
      intro c hc hid
      have heq := ((hmem c).1 hc).2.2.2
      exact hnew ⟨c, hconflicts ▸ List.mem_append_right _ hc, by rw [heq], hid⟩
    refine ⟨noted ++ [⟨consumer, id, cap, before.outputScale id⟩], ?_, ?_, fun c => ?_⟩
    · rw [hconflicts, hscale, List.append_assoc]
    · rw [List.map_append, List.map_singleton, List.nodup_append]
      refine ⟨hnodup, List.nodup_singleton _, fun input hinput other hother => ?_⟩
      obtain ⟨c, hc, rfl⟩ := List.mem_map.1 hinput
      rw [List.mem_singleton.1 hother]
      exact hfresh c hc
    · rw [List.mem_append, List.mem_singleton, hmem]
      constructor
      · rintro (⟨hreached, hrest⟩ | rfl)
        · exact ⟨Or.inl hreached, hrest⟩
        · exact ⟨Or.inr rfl, hsource, hbefore, rfl⟩
      · rintro ⟨hreached | hid, hrest⟩
        · exact Or.inl ⟨hreached, hrest⟩
        · rw [hid] at hrest
          exact Or.inr hrest.2.2

/-- A cap that is tightened is that of a layer which was not reached before. -/
theorem PlacesCap.tightened (h : plan.PlacesCap cap consumer reached before result)
    (hsize : id < result.1.caps.size) (hrescales : plan.network.Rescales id)
    (hyields : result.1.Yields cap id) :
    plan.PlacesCap cap consumer (fun other => reached other ∨ other = id) before
      ({ result.1.unprocess (plan.onwards id) with
        caps := result.1.caps.setIfInBounds id (some cap) }, true) := by
  -- A layer that was reached has a cap that is no larger, which does not yield to this one.
  have hfirst : ¬ reached id := fun hreached =>
    Sweep.not_lt_capUnder (hyields _ (h.rescaled hreached hrescales))
  have hsame := h.others fun hboth => hfirst hboth.1
  have hbefore : before.Yields cap id := by
    unfold Sweep.Yields at hyields ⊢
    rwa [hsame] at hyields
  generalize hafter : ({ result.1.unprocess (plan.onwards id) with
    caps := result.1.caps.setIfInBounds id (some cap) } : Sweep) = after
  have hcap (other : Nat) :
      after.cap? other = if other = id then some cap else result.1.cap? other := by
    rw [← hafter]
    exact result.1.cap?_set id cap hsize other
  have hlowered (other : Nat) :
      before.LoweredAt after other ↔ before.LoweredAt result.1 other ∨ other = id := by
    unfold Sweep.LoweredAt
    by_cases heq : other = id
    · subst heq
      simp [hcap, hbefore]
    · simp [hcap, heq]
  have hprocessed (other : Nat) : after.isProcessed other = true ↔
      result.1.isProcessed other = true ∧ other ∉ plan.onwards id := by
    rw [← hafter]
    exact result.1.isProcessed_unprocess (plan.onwards id) other
  refine ⟨fun {other} hother hkind => ?_, fun {other} hother => ?_, ?_, ?_, fun other => ?_, ?_⟩
  · by_cases heq : other = id
    · rw [hcap, if_pos heq, heq, Sweep.capUnder_of_yields hbefore]
    · rw [hcap, if_neg heq]
      exact h.rescaled (hother.resolve_right heq) hkind
  · have hne : other ≠ id := by
      rintro rfl
      exact hother ⟨Or.inr rfl, hrescales⟩
    rw [hcap, if_neg hne]
    exact h.others fun ⟨hreached, hkind⟩ => hother ⟨Or.inl hreached, hkind⟩
  · obtain ⟨noted, hconflicts, hnodup, hmem⟩ := h.conflicts
    refine ⟨noted, by rw [← hafter]; exact hconflicts, hnodup, fun c => (hmem c).trans ?_⟩
    refine ⟨fun ⟨hreached, hrest⟩ => ⟨Or.inl hreached, hrest⟩, ?_⟩
    rintro ⟨hreached | hid, hsource, hrest⟩
    · exact ⟨hreached, hsource, hrest⟩
    · rw [hid] at hsource
      exact absurd hrescales hsource.not_rescales
  · exact iff_of_true rfl ⟨id, (hlowered id).2 (Or.inr rfl)⟩
  · rw [hprocessed, h.processed_iff, and_assoc]
    simp only [hlowered, or_imp, forall_and, forall_eq]
  · rw [← hafter]
    exact ⟨(Sweep.size_unprocess _ _).trans h.framed.processed_size,
      (Array.size_setIfInBounds ..).trans h.framed.caps_size, h.framed.table, h.framed.restarts,
      h.framed.restartPending⟩

/-- The arrival at one more layer. -/
theorem PlacesCap.place (h : plan.PlacesCap cap consumer reached before result)
    (hcaps : before.HasNumberCaps) (hsize : before.caps.size = plan.network.size)
    (hstops : ∀ {layer}, plan.network.layer? id = some layer → layer.stopsCaps = true) :
    plan.PlacesCap cap consumer (fun other => reached other ∨ other = id) before
      (plan.placeCap cap consumer result id) := by
  have harrives := plan.placeCap_arrives cap consumer id result
  generalize plan.placeCap cap consumer result id = next at harrives
  cases harrives with
  | held hheld => exact h.held hcaps hheld
  | noted hlayer hkind hnew => exact h.noted ⟨_, hlayer, hkind⟩ hnew
  | @tightened layer hlayer hkind hyields =>
      have hrescales : layer.kind.canRescale = true := by
        simpa [Layer.stopsCaps, hkind] using hstops hlayer
      refine h.tightened ?_ ⟨layer, hlayer, hrescales⟩ hyields
      rw [h.framed.caps_size, hsize]
      exact Network.lt_size hlayer

theorem PlacesCap.foldl (h : plan.PlacesCap cap consumer reached before result)
    (hcaps : before.HasNumberCaps) (hsize : before.caps.size = plan.network.size) {ids : List Nat}
    (hstops : ∀ id ∈ ids, ∀ {layer}, plan.network.layer? id = some layer →
      layer.stopsCaps = true) :
    plan.PlacesCap cap consumer (fun other => reached other ∨ other ∈ ids) before
      (ids.foldl (plan.placeCap cap consumer) result) := by
  induction ids generalizing reached result with
  | nil => exact h.congr fun other _ => by simp
  | cons id rest ih =>
      have hfirst := h.place hcaps hsize (hstops id List.mem_cons_self)
      have hrest := ih hfirst fun other hother => hstops other (List.mem_cons_of_mem _ hother)
      exact hrest.congr fun other _ => by rw [List.mem_cons, or_assoc]

/-- A cap that is pushed arrives at the layers that it reaches. -/
theorem Ordered.pushCap_places (hplan : plan.Ordered) (start : Nat) (cap : Single)
    (consumer : Nat) (hcaps : before.HasNumberCaps)
    (hsize : before.caps.size = plan.network.size) :
    plan.PlacesCap cap consumer (plan.network.CapReaches start) before
      (plan.pushCap start cap consumer (before, false)) := by
  have hnowhere : plan.PlacesCap cap consumer (fun _ => False) before (before, false) :=
    .start before
  have hplaced : plan.PlacesCap cap consumer
      (fun id => False ∨ id ∈ plan.network.frontier start) before
      (plan.pushCap start cap consumer (before, false)) :=
    hnowhere.foldl hcaps hsize fun _ hid {_} hlayer =>
      Network.stopsCaps_of_mem_frontier hid hlayer
  refine hplaced.congr fun id hstops => ?_
  rw [false_or, hplan.formed.mem_frontier, Network.traces_iff, and_iff_left hstops]

/-! ## The first lowered cap -/

/-- The layers from the first lowered cap on, in the order of the sweep, are unprocessed, and no
other flag changes. Without a lowered cap none does. -/
structure Unprocesses (plan : SweepPlan) (before : Sweep) (result : Sweep × Bool) : Prop where
  loose : result.2 = false → ∀ id, result.1.isProcessed id = before.isProcessed id
  lowered : result.2 = true → ∃ first, before.LoweredAt result.1 first ∧
    (∀ id, before.LoweredAt result.1 id → plan.order.idxOf first ≤ plan.order.idxOf id) ∧
    ∀ id < plan.network.size, result.1.isProcessed id =
      if plan.order.idxOf first ≤ plan.order.idxOf id then false else before.isProcessed id

/-- In the order of the layers, a layer has its id as position. -/
theorem Ordered.idxOf_eq (hplan : plan.Ordered) (hid : id < plan.network.size) :
    plan.order.idxOf id = id := by
  have hlength : id < (List.range plan.network.size).length := by simpa using hid
  have hposition := List.nodup_range.idxOf_getElem id hlength
  rw [hplan.order_eq]
  rwa [List.getElem_range] at hposition

theorem PlacesCap.unprocesses (hplan : plan.Ordered)
    (h : plan.PlacesCap cap consumer reached before result)
    (hsize : before.caps.size = plan.network.size) : plan.Unprocesses before result where
  loose := by
    intro hflag id
    have hnone (lowered : Nat) : ¬ before.LoweredAt result.1 lowered := by
      intro hlowered
      cases hflag.symm.trans (h.lowered_iff.2 ⟨lowered, hlowered⟩)
    rw [Bool.eq_iff_iff, h.processed_iff]
    exact and_iff_left fun lowered hlowered => absurd hlowered (hnone lowered)
  lowered := by
    intro hflag
    have hlt {lowered : Nat} (hlowered : before.LoweredAt result.1 lowered) :
        lowered < plan.network.size := by
      obtain ⟨known, hknown, _⟩ := hlowered
      exact (Sweep.lt_of_cap? hknown).trans_eq (h.framed.caps_size.trans hsize)
    -- Positions are ids, so the first lowered layer is the one with the least id.
    obtain ⟨first, hfirst, hleast⟩ := WellFounded.has_min Nat.lt_wfRel.wf
      {id | before.LoweredAt result.1 id} (h.lowered_iff.1 hflag)
    have hle {lowered : Nat} (hlowered : before.LoweredAt result.1 lowered) : first ≤ lowered :=
      Nat.le_of_not_lt (hleast lowered hlowered)
    refine ⟨first, hfirst, fun id hid => ?_, fun id hid => ?_⟩
    · rw [hplan.idxOf_eq (hlt hfirst), hplan.idxOf_eq (hlt hid)]
      exact hle hid
    · rw [hplan.idxOf_eq (hlt hfirst), hplan.idxOf_eq hid, Bool.eq_iff_iff, h.processed_iff]
      split
      · rename_i hafter
        refine iff_of_false (fun hboth => ?_) Bool.false_ne_true
        exact hboth.2 first hfirst ((hplan.mem_onwards (hlt hfirst)).2 ⟨hafter, hid⟩)
      · rename_i hbefore
        refine and_iff_left fun lowered hlowered hmem => ?_
        have := ((hplan.mem_onwards (hlt hlowered)).1 hmem).1
        have := hle hlowered
        omega

end SweepPlan

end LayerQuant
