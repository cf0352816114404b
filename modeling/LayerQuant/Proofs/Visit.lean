import Mathlib
import LayerQuant.Proofs.Comparison
import LayerQuant.Range.Propagation

/-!
# What a visit does

A visit of a layer is a sequence of raises with one range, the range that it joins. Read
`visit_pointwise` first: whatever these raises keep at every entry, the visit keeps. `visit_frame`
says that the entries of layers that a visit does not report are as before, and `quiet_of_visit`
what a visit that reports nothing has found.
-/

namespace LayerQuant

namespace Edge

variable {edge : Edge} {range : Single}

/-- Joining a range changes nothing exactly if the aggregated range is at least that range. -/
theorem raises_eq_false :
    edge.raises range = false ↔ ∃ known, edge.aggregated? = some known ∧ range ≤ known := by
  unfold raises
  cases edge.aggregated? <;> simp

theorem raise_of_not_raises (h : edge.raises range = false) : edge.raise range = edge := by
  simp [raise, h]

theorem raise_of_raises (h : edge.raises range = true) :
    edge.raise range = edge.setAggregated range := by
  simp [raise, h]

end Edge

namespace EdgeTable

variable {alters : Layer → Bool} {layer : Layer} {table : EdgeTable} {range : Single} {id : Nat}

/-- A change of one entry keeps what the change keeps at this entry. -/
theorem modify_pointwise {R : Nat → LayerEdges → Prop} (h : ∀ id, R id (table.get id))
    {change : LayerEdges → LayerEdges} (hchange : ∀ edges, R id edges → R id (change edges)) :
    ∀ other, R other ((table.modify id change).get other) := by
  intro other
  rw [get_modify]
  split
  · rename_i heq
    obtain ⟨rfl, _⟩ := heq
    exact hchange _ (h other)
  · exact h other

/-- Changing an entry to what it is changes nothing. -/
theorem modify_of_eq {change : LayerEdges → LayerEdges}
    (h : change (table.get id) = table.get id) : table.modify id change = table := by
  have hlayers : table.layers.modify id change = table.layers := by
    refine Array.ext (Array.size_modify ..) fun other hleft hright => ?_
    rw [Array.getElem_modify]
    split
    · rename_i heq
      subst heq
      simpa [get, hright] using h
    · rfl
  exact congrArg EdgeTable.mk hlayers

/-- The range that a visit joins if the given range arrives. -/
def joinedRange (alters : Layer → Bool) (table : EdgeTable) (layer : Layer) (arriving : Single) :
    Single :=
  if alters layer then arriving
  else
    [(table.get layer.id).input.aggregated?, (table.get layer.id).output.aggregated?].reduceOption
      |>.foldl .maximum arriving

/-- A visit of the layer joins the range. -/
def Joins (alters : Layer → Bool) (table : EdgeTable) (layer : Layer) (range : Single) : Prop :=
  ∃ arriving, table.arrivingRange? layer = some arriving ∧
    table.joinedRange alters layer arriving = range

/-! ## Raising outputs -/

theorem raiseOutputs_pointwise {R : Nat → LayerEdges → Prop} (ids : List Nat)
    (h : ∀ id, R id (table.get id))
    (houtput : ∀ id ∈ ids, ∀ edges, R id edges →
      R id { edges with output := edges.output.raise range }) :
    ∀ id, R id ((raiseOutputs range ids table).1.get id) := by
  induction ids generalizing table with
  | nil => exact h
  | cons first rest ih =>
      have hfirst : ∀ id, R id ((table.modifyOutput first (·.raise range)).get id) :=
        modify_pointwise h (houtput first List.mem_cons_self)
      show ∀ id, R id ((raiseOutputs range rest (table.modifyOutput first _)).1.get id)
      exact ih hfirst fun id hid => houtput id (List.mem_cons_of_mem _ hid)

/-- Only listed layers are reported. -/
theorem mem_of_mem_raiseOutputs {ids : List Nat} (h : id ∈ (raiseOutputs range ids table).2) :
    id ∈ ids := by
  induction ids generalizing table with
  | nil => simp [raiseOutputs] at h
  | cons first rest ih =>
      simp only [raiseOutputs] at h
      split at h
      · rcases List.mem_cons.1 h with rfl | h
        · exact List.mem_cons_self
        · exact List.mem_cons_of_mem _ (ih h)
      · exact List.mem_cons_of_mem _ (ih h)

/-- The entries of layers that are not reported are as before. -/
theorem raiseOutputs_frame {ids : List Nat} (h : id ∉ (raiseOutputs range ids table).2) :
    (raiseOutputs range ids table).1.get id = table.get id := by
  induction ids generalizing table with
  | nil => rfl
  | cons first rest ih =>
      simp only [raiseOutputs] at h ⊢
      cases hraises : (table.get first).output.raises range with
      | true =>
          -- The first layer is reported, so it is another one.
          simp only [hraises, if_true, List.mem_cons, not_or] at h
          rw [ih h.2]
          show (table.modify first _).get id = table.get id
          exact get_modify_of_ne h.1 _
      | false =>
          simp only [hraises, Bool.false_eq_true, if_false] at h
          rw [ih h]
          show (table.modify first _).get id = table.get id
          rw [modify_of_eq (by simp only [Edge.raise_of_not_raises hraises])]

/-- If no layer is reported, no listed output had to be raised. -/
theorem not_raises_of_raiseOutputs {ids : List Nat} (h : (raiseOutputs range ids table).2 = []) :
    ∀ id ∈ ids, (table.get id).output.raises range = false := by
  induction ids generalizing table with
  | nil => simp
  | cons first rest ih =>
      simp only [raiseOutputs] at h
      cases hraises : (table.get first).output.raises range with
      | true => simp [hraises] at h
      | false =>
          simp only [hraises, Bool.false_eq_true, if_false] at h
          intro id hid
          rcases List.mem_cons.1 hid with rfl | hid
          · exact hraises
          · have hsame : table.modifyOutput first (·.raise range) = table :=
              modify_of_eq (by simp only [Edge.raise_of_not_raises hraises])
            rw [hsame] at h
            exact ih h id hid

/-- If no listed output has to be raised, nothing is changed and no layer is reported. -/
theorem raiseOutputs_of_not_raises {ids : List Nat}
    (h : ∀ id ∈ ids, (table.get id).output.raises range = false) :
    raiseOutputs range ids table = (table, []) := by
  induction ids with
  | nil => rfl
  | cons first rest ih =>
      have hfirst := h first List.mem_cons_self
      have hsame : table.modifyOutput first (·.raise range) = table :=
        modify_of_eq (by simp only [Edge.raise_of_not_raises hfirst])
      rw [raiseOutputs, hsame, ih fun id hid => h id (List.mem_cons_of_mem _ hid), hfirst]
      rfl

/-! ## Joining the tensors of the layer itself -/

theorem joinLayer_range (arriving : Single) :
    (table.joinLayer alters layer arriving).2.1 = table.joinedRange alters layer arriving := by
  unfold joinLayer joinedRange
  split <;> rfl

theorem joinLayer_pointwise {R : Nat → LayerEdges → Prop} {arriving : Single}
    (h : ∀ id, R id (table.get id))
    (hinput : ∀ edges, R layer.id edges → R layer.id
      { edges with input := edges.input.raise (table.joinedRange alters layer arriving) })
    (houtput : alters layer = false → ∀ edges, R layer.id edges → R layer.id
      { edges with output := edges.output.raise (table.joinedRange alters layer arriving) }) :
    ∀ id, R id ((table.joinLayer alters layer arriving).1.get id) := by
  unfold joinLayer
  unfold joinedRange at hinput houtput
  cases halters : alters layer with
  | true =>
      simp only [halters, if_true] at hinput ⊢
      exact modify_pointwise h hinput
  | false =>
      simp only [halters, Bool.false_eq_true, if_false, forall_const] at hinput houtput ⊢
      exact modify_pointwise h fun edges hedges => houtput _ (hinput edges hedges)

/-- If the layer is not reported as changed, none of the edges that the join looks at had to be
raised. -/
theorem not_raises_of_joinLayer {arriving : Single}
    (h : (table.joinLayer alters layer arriving).2.2 = false) :
    (table.get layer.id).input.raises (table.joinedRange alters layer arriving) = false ∧
      (alters layer = false →
        (table.get layer.id).output.raises (table.joinedRange alters layer arriving) = false) := by
  unfold joinLayer at h
  unfold joinedRange
  cases halters : alters layer with
  | true =>
      simp only [halters, if_true] at h ⊢
      exact ⟨h, fun hfalse => by cases hfalse⟩
  | false =>
      simp only [halters, Bool.false_eq_true, if_false, Bool.or_eq_false_iff] at h ⊢
      exact ⟨h.1, fun _ => h.2⟩

/-- Apart from the layer itself, and if it is not reported as changed, entries are as before. -/
theorem joinLayer_frame {arriving : Single}
    (h : id = layer.id → (table.joinLayer alters layer arriving).2.2 = false) :
    (table.joinLayer alters layer arriving).1.get id = table.get id := by
  by_cases hid : id = layer.id
  · obtain ⟨hinput, houtput⟩ := not_raises_of_joinLayer (h hid)
    unfold joinLayer
    unfold joinedRange at hinput houtput
    cases halters : alters layer with
    | true =>
        simp only [halters, if_true] at hinput ⊢
        rw [EdgeTable.modifyInput, modify_of_eq (by simp only [Edge.raise_of_not_raises hinput])]
    | false =>
        simp only [halters, Bool.false_eq_true, if_false, forall_const] at hinput houtput ⊢
        rw [modify_of_eq (by
          simp only [Edge.raise_of_not_raises hinput, Edge.raise_of_not_raises houtput])]
  · unfold joinLayer
    split
    · exact get_modify_of_ne hid _
    · exact get_modify_of_ne hid _

/-! ## The visit -/

/-- A visit keeps whatever raising the tensors of the layer and its producers keeps everywhere. -/
theorem visit_pointwise {R : Nat → LayerEdges → Prop} (h : ∀ id, R id (table.get id))
    (hinput : ∀ range, table.Joins alters layer range → ∀ edges, R layer.id edges →
      R layer.id { edges with input := edges.input.raise range })
    (houtput : ∀ range, table.Joins alters layer range → ∀ id,
      (alters layer = false ∧ id = layer.id ∨ .zero < range ∧ id ∈ layer.predecessors) →
      ∀ edges, R id edges → R id { edges with output := edges.output.raise range }) :
    ∀ id, R id ((table.visit alters layer).1.get id) := by
  unfold visit
  cases harriving : table.arrivingRange? layer with
  | none => exact h
  | some arriving =>
      have hjoins : table.Joins alters layer (table.joinedRange alters layer arriving) :=
        ⟨arriving, harriving, rfl⟩
      have hjoined := joinLayer_pointwise h (hinput _ hjoins)
        (fun halters => houtput _ hjoins _ (Or.inl ⟨halters, rfl⟩))
      simp only [joinLayer_range]
      split
      · rename_i hpositive
        exact raiseOutputs_pointwise _ hjoined fun id hid =>
          houtput _ hjoins id (Or.inr ⟨hpositive, hid⟩)
      · exact hjoined

/-- A visit reports only the layer itself and its producers. -/
theorem mem_of_mem_visit (h : id ∈ (table.visit alters layer).2) :
    id = layer.id ∨ id ∈ layer.predecessors := by
  unfold visit at h
  cases harriving : table.arrivingRange? layer with
  | none => simp [harriving] at h
  | some arriving =>
      simp only [harriving] at h
      have hown : id ∈ (if (table.joinLayer alters layer arriving).2.2 then [layer.id] else []) →
          id = layer.id := by
        split <;> simp
      split at h
      · rcases List.mem_append.1 h with h | h
        · exact Or.inl (hown h)
        · exact Or.inr (mem_of_mem_raiseOutputs h)
      · exact Or.inl (hown h)

/-- The entries of layers that a visit does not report are as before. -/
theorem visit_frame (h : id ∉ (table.visit alters layer).2) :
    (table.visit alters layer).1.get id = table.get id := by
  unfold visit at h ⊢
  cases harriving : table.arrivingRange? layer with
  | none => rfl
  | some arriving =>
      simp only [harriving] at h ⊢
      have hown : id ∉ (if (table.joinLayer alters layer arriving).2.2 then [layer.id] else []) →
          (table.joinLayer alters layer arriving).1.get id = table.get id := by
        intro hid
        refine joinLayer_frame fun heq => ?_
        cases hgrew : (table.joinLayer alters layer arriving).2.2 with
        | true => simp [hgrew, heq] at hid
        | false => rfl
      split at h
      · rename_i hpositive
        rw [List.mem_append, not_or] at h
        rw [if_pos hpositive, raiseOutputs_frame h.2]
        exact hown h.1
      · rename_i hpositive
        rw [if_neg hpositive]
        exact hown h

/-- A visit of the layer would change nothing. -/
def Quiet (alters : Layer → Bool) (layer : Layer) (table : EdgeTable) : Prop :=
  ∀ range, table.Joins alters layer range →
    (table.get layer.id).input.raises range = false ∧
    (alters layer = false → (table.get layer.id).output.raises range = false) ∧
    (.zero < range → ∀ p ∈ layer.predecessors, (table.get p).output.raises range = false)

/-- A visit that reports nothing has found nothing to change. -/
theorem quiet_of_visit (h : (table.visit alters layer).2 = []) : table.Quiet alters layer := by
  rintro range ⟨arriving, harriving, rfl⟩
  unfold visit at h
  simp only [harriving, joinLayer_range] at h
  have hown : (if (table.joinLayer alters layer arriving).2.2 then [layer.id] else []) = [] →
      (table.joinLayer alters layer arriving).2.2 = false := by
    split <;> simp_all
  split at h
  · obtain ⟨hlayer, hproducers⟩ := List.append_eq_nil_iff.1 h
    have hgrew := hown hlayer
    obtain ⟨hinput, houtput⟩ := not_raises_of_joinLayer hgrew
    refine ⟨hinput, houtput, fun _ p hp => ?_⟩
    -- The join has changed nothing either, so the producers are as they were before it.
    have hframe : (table.joinLayer alters layer arriving).1.get p = table.get p :=
      joinLayer_frame fun _ => hgrew
    rw [← hframe]
    exact not_raises_of_raiseOutputs hproducers p hp
  · rename_i hpositive
    obtain ⟨hinput, houtput⟩ := not_raises_of_joinLayer (hown h)
    exact ⟨hinput, houtput, fun hzero => absurd hzero hpositive⟩

/-- A visit of a quiet layer leaves the table as it is and reports nothing. -/
theorem Quiet.visit (h : table.Quiet alters layer) : table.visit alters layer = (table, []) := by
  unfold EdgeTable.visit
  cases harriving : table.arrivingRange? layer with
  | none => rfl
  | some arriving =>
      obtain ⟨hinput, houtput, hproducers⟩ := h _ ⟨arriving, harriving, rfl⟩
      have hjoined : table.joinLayer alters layer arriving =
          (table, table.joinedRange alters layer arriving, false) := by
        unfold joinLayer
        unfold joinedRange at hinput houtput ⊢
        cases halters : alters layer with
        | true =>
            simp only [halters, if_true] at hinput ⊢
            rw [EdgeTable.modifyInput,
              modify_of_eq (by simp only [Edge.raise_of_not_raises hinput]), hinput]
        | false =>
            simp only [halters, Bool.false_eq_true, if_false, forall_const] at hinput houtput ⊢
            rw [modify_of_eq (by
              simp only [Edge.raise_of_not_raises hinput, Edge.raise_of_not_raises houtput]),
              hinput, houtput]
            rfl
      simp only [hjoined, Bool.false_eq_true, if_false, List.nil_append]
      split
      · rename_i hpositive
        rw [raiseOutputs_of_not_raises (hproducers hpositive)]
      · rfl

/-- Whether a layer is quiet depends on the entries of the layer and its producers only. -/
theorem Quiet.congr {other : EdgeTable} (h : table.Quiet alters layer)
    (hlayer : other.get layer.id = table.get layer.id)
    (hproducers : ∀ p ∈ layer.predecessors, other.get p = table.get p) :
    other.Quiet alters layer := by
  have harriving : other.arrivingRange? layer = table.arrivingRange? layer := by
    unfold arrivingRange?
    rw [List.filterMap_congr fun p hp => by rw [hproducers p hp]]
  intro range hjoins
  have hjoins' : table.Joins alters layer range := by
    simpa only [Joins, joinedRange, harriving, hlayer] using hjoins
  obtain ⟨hinput, houtput, hpositive⟩ := h range hjoins'
  rw [hlayer]
  refine ⟨hinput, houtput, fun hzero p hp => ?_⟩
  rw [hproducers p hp]
  exact hpositive hzero p hp

end EdgeTable

end LayerQuant
