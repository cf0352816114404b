import Mathlib
import LayerQuant.Proofs.LeastClosed

/-!
# How far ranges have risen

The aggregated range of a tensor is always one of the ranges that were there at the start, so it has
a rank among them: the number of their values that it has reached. Joining a range never lowers a
rank, and a visit raises the rank of every layer that it reports (`visit_rank_lt`). Read
`Edge.rank_lt_raise` first.
-/

namespace LayerQuant

namespace Binary

variable {f : Format}

/-- The place of a number in the numeric order, where the two zeros coincide. -/
def place? : Binary f → Option Int
  | nan => none
  | number negative magnitude => some (position negative magnitude)

/-- The places of the numbers in a list. Their number is the number of distinct values. -/
def places (xs : List (Binary f)) : Finset Int := (xs.filterMap place?).toFinset

/-- Numbers of one value are those of one place. -/
theorem sameNumber_iff_place? {a b : Binary f} :
    a.sameNumber b = true ↔ ∃ place, a.place? = some place ∧ b.place? = some place := by
  cases a with
  | nan => simp [sameNumber, place?]
  | number negative magnitude =>
      cases b with
      | nan => simp [sameNumber, place?]
      | number negative' magnitude' =>
          show (position negative magnitude == position negative' magnitude') = true ↔ _
          rw [beq_iff_eq]
          constructor
          · intro heq
            exact ⟨_, rfl, congrArg some heq.symm⟩
          · rintro ⟨place, hplace, hplace'⟩
            exact Option.some.inj (hplace.trans hplace'.symm)

/-- The datum is a number whose value is among the given ones. -/
def Among (values : Finset Int) (x : Binary f) : Prop := ∃ place ∈ values, x.place? = some place

/-- The numbers of a list have their values among the values of the list. -/
theorem among_places {xs : List (Binary f)} {x : Binary f} (hx : x ∈ xs)
    (hnumber : x.isNaN = false) : x.Among (places xs) := by
  cases x with
  | nan => cases hnumber
  | number negative magnitude =>
      refine ⟨position negative magnitude, ?_, rfl⟩
      exact List.mem_toFinset.2 (List.mem_filterMap.2 ⟨_, hx, rfl⟩)

end Binary

namespace Edge

variable {values : Finset Int} {edge : Edge} {range : Single}

/-- How many of the values the aggregated range has reached, none while it is unknown. -/
def rank (values : Finset Int) (edge : Edge) : Nat :=
  match edge.aggregated?.bind Binary.place? with
  | none => 0
  | some top => (values.filter (· ≤ top)).card

theorem rank_le (values : Finset Int) (edge : Edge) : edge.rank values ≤ values.card := by
  unfold rank
  split
  · exact Nat.zero_le _
  · exact Finset.card_filter_le _ _

/-- Joining a range that changes an edge makes it reach one more value at least, that of the
range. -/
theorem rank_lt_raise (hrange : range.Among values) (hraises : edge.raises range = true) :
    edge.rank values < (edge.raise range).rank values := by
  obtain ⟨place, hplace, hat⟩ := hrange
  have hraised : (edge.raise range).rank values = (values.filter (· ≤ place)).card := by
    rw [raise_of_raises hraises]
    simp [rank, setAggregated, hat]
  have hreached : place ∈ values.filter (· ≤ place) := Finset.mem_filter.2 ⟨hplace, le_rfl⟩
  rw [hraised]
  unfold rank
  cases hknown : edge.aggregated? with
  | none => exact Finset.card_pos.2 ⟨place, hreached⟩
  | some known =>
      cases known with
      | nan => exact Finset.card_pos.2 ⟨place, hreached⟩
      | number negative magnitude =>
          -- The range is above the known one, which has not reached it yet.
          have habove : Binary.position negative magnitude < place := by
            cases range with
            | nan => cases hat
            | number negative' magnitude' =>
                obtain rfl := Option.some.inj hat
                simpa [raises, hknown] using hraises
          show (values.filter (· ≤ Binary.position negative magnitude)).card < _
          refine Finset.card_lt_card (Finset.ssubset_iff_of_subset ?_ |>.2 ⟨place, hreached, ?_⟩)
          · intro other hother
            obtain ⟨hmem, hle⟩ := Finset.mem_filter.1 hother
            exact Finset.mem_filter.2 ⟨hmem, by omega⟩
          · intro hmem
            have hle := (Finset.mem_filter.1 hmem).2
            omega

/-- Joining a range never lowers a rank. -/
theorem rank_le_raise (hrange : range.Among values) :
    edge.rank values ≤ (edge.raise range).rank values := by
  cases hraises : edge.raises range with
  | true => exact (rank_lt_raise hrange hraises).le
  | false => rw [raise_of_not_raises hraises]

end Edge

namespace LayerEdges

variable {values : Finset Int} {edges : LayerEdges} {range : Single}

/-- The ranges of a layer that visits pass on. -/
def circulating (edges : LayerEdges) : List Single :=
  [edges.output.range?, edges.input.aggregated?, edges.output.aggregated?].reduceOption

theorem mem_circulating : range ∈ edges.circulating ↔ edges.output.range? = some range ∨
    edges.input.aggregated? = some range ∨ edges.output.aggregated? = some range := by
  simp [circulating, List.reduceOption_mem_iff, eq_comm]

/-- How far the ranges of a layer have risen. -/
def rank (values : Finset Int) (edges : LayerEdges) : Nat :=
  edges.input.rank values + edges.output.rank values

/-- The ranges that the layer passes on have values among the given ones. -/
def Within (values : Finset Int) (edges : LayerEdges) : Prop :=
  ∀ range ∈ edges.circulating, range.Among values

/-- Raising an input adds no other range to those that are passed on. -/
theorem mem_circulating_raise_input {other : Single}
    (h : other ∈ { edges with input := edges.input.raise range }.circulating) :
    other = range ∨ other ∈ edges.circulating := by
  rw [mem_circulating] at h ⊢
  rcases h with hown | hinput | houtput
  · exact Or.inr (Or.inl hown)
  · cases hraises : edges.input.raises range with
    | true =>
        rw [Edge.raise_of_raises hraises] at hinput
        exact Or.inl (Option.some.inj hinput).symm
    | false =>
        rw [Edge.raise_of_not_raises hraises] at hinput
        exact Or.inr (Or.inr (Or.inl hinput))
  · exact Or.inr (Or.inr (Or.inr houtput))

/-- Raising an output adds no other range to those that are passed on. -/
theorem mem_circulating_raise_output {other : Single}
    (h : other ∈ { edges with output := edges.output.raise range }.circulating) :
    other = range ∨ other ∈ edges.circulating := by
  have hkept : (edges.output.raise range).range? = edges.output.range? := by
    unfold Edge.raise
    split <;> rfl
  rw [mem_circulating] at h ⊢
  rcases h with hown | hinput | houtput
  · exact Or.inr (Or.inl (hkept.symm.trans hown))
  · exact Or.inr (Or.inr (Or.inl hinput))
  · cases hraises : edges.output.raises range with
    | true =>
        rw [Edge.raise_of_raises hraises] at houtput
        exact Or.inl (Option.some.inj houtput).symm
    | false =>
        rw [Edge.raise_of_not_raises hraises] at houtput
        exact Or.inr (Or.inr (Or.inr houtput))

theorem Within.raise_input (h : edges.Within values) (hrange : range.Among values) :
    Within values { edges with input := edges.input.raise range } := by
  intro other hother
  rcases mem_circulating_raise_input hother with rfl | hold
  · exact hrange
  · exact h other hold

theorem Within.raise_output (h : edges.Within values) (hrange : range.Among values) :
    Within values { edges with output := edges.output.raise range } := by
  intro other hother
  rcases mem_circulating_raise_output hother with rfl | hold
  · exact hrange
  · exact h other hold

end LayerEdges

namespace EdgeTable

variable {alters : Layer → Bool} {network : Network} {layer : Layer} {table : EdgeTable}
  {values : Finset Int} {range arriving : Single} {ids : List Nat} {id count : Nat}

/-- The ranges that visits pass on between the first `count` layers. -/
def circulating (table : EdgeTable) (count : Nat) : List Single :=
  (List.range count).flatMap fun id => (table.get id).circulating

/-- The ranges that the first `count` layers pass on have values among the given ones. -/
def Within (values : Finset Int) (count : Nat) (table : EdgeTable) : Prop :=
  ∀ id < count, (table.get id).Within values

/-- How far the ranges of the first `count` layers have risen. -/
def rank (values : Finset Int) (count : Nat) (table : EdgeTable) : Nat :=
  ∑ id ∈ Finset.range count, (table.get id).rank values

/-- Numbers are among their own values. -/
theorem within_places (h : ∀ range ∈ table.circulating count, range.isNaN = false) :
    table.Within (Binary.places (table.circulating count)) count := by
  intro id hid range hrange
  have hmem : range ∈ table.circulating count :=
    List.mem_flatMap.2 ⟨id, List.mem_range.2 hid, hrange⟩
  exact Binary.among_places hmem (h range hmem)

/-- Two tensors of each layer can reach every value. -/
theorem rank_le (values : Finset Int) (count : Nat) (table : EdgeTable) :
    table.rank values count ≤ 2 * count * values.card := by
  calc table.rank values count
      ≤ ∑ _id ∈ Finset.range count, 2 * values.card := by
        refine Finset.sum_le_sum fun id _ => ?_
        have hinput := (table.get id).input.rank_le values
        have houtput := (table.get id).output.rank_le values
        show (table.get id).input.rank values + (table.get id).output.rank values ≤ _
        omega
    _ = 2 * count * values.card := by
        rw [Finset.sum_const, Finset.card_range, smul_eq_mul]
        ring

/-- What a visit joins is passed on by the layer itself or by one of its producers. -/
theorem Joins.mem_circulating (h : table.Joins alters layer range) :
    ∃ id, (id = layer.id ∨ id ∈ layer.predecessors) ∧ range ∈ (table.get id).circulating := by
  rcases mem_meeting.1 h.isLargest.1 with ⟨p, hp, hknown⟩ | ⟨_, hown⟩
  · refine ⟨p, Or.inr hp, LayerEdges.mem_circulating.2 ?_⟩
    rcases Edge.knownRange?_cases hknown with hrange | haggregated
    · exact Or.inl hrange
    · exact Or.inr (Or.inr haggregated)
  · exact ⟨layer.id, Or.inl rfl, LayerEdges.mem_circulating.2 (Or.inr hown)⟩

/-- What a visit joins is among the values of the ranges that are passed on. -/
theorem Within.joins (hformed : network.WellFormed) (hlayer : layer ∈ network.layers.toList)
    (h : table.Within values network.size) (hjoins : table.Joins alters layer range) :
    range.Among values := by
  have hfound := hformed.layer?_id hlayer
  obtain ⟨id, rfl | hp, hmem⟩ := hjoins.mem_circulating
  · exact h layer.id (Network.lt_size hfound) range hmem
  · exact h id (hformed.predecessor_lt hfound hp) range hmem

/-! ## Raising outputs -/

theorem size_raiseOutputs (range : Single) (ids : List Nat) (table : EdgeTable) :
    (raiseOutputs range ids table).1.size = table.size := by
  induction ids generalizing table with
  | nil => rfl
  | cons id rest ih =>
      show (raiseOutputs range rest (table.modifyOutput id _)).1.size = table.size
      rw [ih]
      exact size_modify _ _ _

theorem rank_le_raiseOutputs (hrange : range.Among values) (ids : List Nat) (id : Nat) :
    (table.get id).rank values ≤ ((raiseOutputs range ids table).1.get id).rank values := by
  refine raiseOutputs_pointwise (R := fun id edges => (table.get id).rank values ≤
    edges.rank values) ids (fun _ => le_rfl) (fun _ _ edges hedges => ?_) id
  exact hedges.trans (Nat.add_le_add_left (Edge.rank_le_raise hrange) _)

/-- Every layer that is reported has risen. -/
theorem rank_lt_raiseOutputs (hrange : range.Among values) (hids : ∀ id ∈ ids, id < table.size)
    (h : id ∈ (raiseOutputs range ids table).2) :
    (table.get id).rank values < ((raiseOutputs range ids table).1.get id).rank values := by
  induction ids generalizing table with
  | nil => cases h
  | cons first rest ih =>
      have hrest : ∀ id ∈ rest, id < (table.modifyOutput first (·.raise range)).size := by
        intro other hother
        have hlt := hids other (List.mem_cons_of_mem _ hother)
        exact hlt.trans_eq (size_modify _ _ _).symm
      have hfirst : ∀ other, (table.get other).rank values ≤
          ((table.modifyOutput first (·.raise range)).get other).rank values :=
        modify_pointwise (R := fun other edges => (table.get other).rank values ≤
          edges.rank values) (fun _ => le_rfl) fun edges hedges =>
            hedges.trans (Nat.add_le_add_left (Edge.rank_le_raise hrange) _)
      have hlater : id ∈ (raiseOutputs range rest (table.modifyOutput first (·.raise range))).2 →
          (table.get id).rank values <
            ((raiseOutputs range (first :: rest) table).1.get id).rank values := by
        intro hmem
        exact (hfirst id).trans_lt (ih hrest hmem)
      simp only [raiseOutputs] at h
      split at h
      · rename_i hraises
        rcases List.mem_cons.1 h with rfl | h
        · have hget : (table.modifyOutput id (·.raise range)).get id =
              { table.get id with output := (table.get id).output.raise range } :=
            get_modify_self (hids id List.mem_cons_self) _
          have hrisen : (table.get id).rank values <
              ((table.modifyOutput id (·.raise range)).get id).rank values := by
            rw [hget]
            exact Nat.add_lt_add_left (Edge.rank_lt_raise hrange hraises) _
          exact hrisen.trans_le (rank_le_raiseOutputs hrange rest id)
        · exact hlater h
      · exact hlater h

/-! ## Joining the tensors of the layer itself -/

theorem size_joinLayer : (table.joinLayer alters layer arriving).1.size = table.size := by
  unfold joinLayer
  split
  · exact size_modify _ _ _
  · exact size_modify _ _ _

theorem rank_le_joinLayer (hrange : (table.joinedRange alters layer arriving).Among values)
    (id : Nat) : (table.get id).rank values ≤
      ((table.joinLayer alters layer arriving).1.get id).rank values := by
  refine joinLayer_pointwise (R := fun id edges => (table.get id).rank values ≤
    edges.rank values) (fun _ => le_rfl) (fun edges hedges => ?_) (fun _ edges hedges => ?_) id
  · exact hedges.trans (Nat.add_le_add_right (Edge.rank_le_raise hrange) _)
  · exact hedges.trans (Nat.add_le_add_left (Edge.rank_le_raise hrange) _)

/-- A layer that the join reports as changed has risen. -/
theorem rank_lt_joinLayer (hrange : (table.joinedRange alters layer arriving).Among values)
    (hid : layer.id < table.size)
    (h : (table.joinLayer alters layer arriving).2.2 = true) :
    (table.get layer.id).rank values <
      ((table.joinLayer alters layer arriving).1.get layer.id).rank values := by
  unfold joinLayer at h ⊢
  unfold joinedRange at hrange
  cases halters : alters layer with
  | true =>
      simp only [halters, if_true] at h hrange ⊢
      rw [EdgeTable.modifyInput, get_modify_self hid]
      exact Nat.add_lt_add_right (Edge.rank_lt_raise hrange h) _
  | false =>
      simp only [halters, Bool.false_eq_true, if_false, Bool.or_eq_true] at h hrange ⊢
      rw [get_modify_self hid]
      rcases h with hinput | houtput
      · exact Nat.add_lt_add_of_lt_of_le (Edge.rank_lt_raise hrange hinput)
          (Edge.rank_le_raise hrange)
      · exact Nat.add_lt_add_of_le_of_lt (Edge.rank_le_raise hrange)
          (Edge.rank_lt_raise hrange houtput)

/-! ## The visit -/

theorem size_visit : (table.visit alters layer).1.size = table.size := by
  unfold visit
  cases table.arrivingRange? layer with
  | none => rfl
  | some arriving =>
      dsimp only
      split
      · exact (size_raiseOutputs _ _ _).trans size_joinLayer
      · exact size_joinLayer

/-- A visit passes on ranges that were there. -/
theorem Within.visit (hformed : network.WellFormed) (hlayer : layer ∈ network.layers.toList)
    (h : table.Within values network.size) :
    (table.visit alters layer).1.Within values network.size := by
  refine visit_pointwise (R := fun id edges => id < network.size → edges.Within values) h ?_ ?_
  · intro range hjoins edges hedges hid
    exact (hedges hid).raise_input (h.joins hformed hlayer hjoins)
  · intro range hjoins id _ edges hedges hid
    exact (hedges hid).raise_output (h.joins hformed hlayer hjoins)

/-- A visit lowers no rank. -/
theorem visit_rank_le (hformed : network.WellFormed) (hlayer : layer ∈ network.layers.toList)
    (h : table.Within values network.size) (id : Nat) :
    (table.get id).rank values ≤ ((table.visit alters layer).1.get id).rank values := by
  refine visit_pointwise (R := fun id edges => (table.get id).rank values ≤ edges.rank values)
    (fun _ => le_rfl) ?_ ?_ id
  · intro range hjoins edges hedges
    exact hedges.trans
      (Nat.add_le_add_right (Edge.rank_le_raise (h.joins hformed hlayer hjoins)) _)
  · intro range hjoins id _ edges hedges
    exact hedges.trans
      (Nat.add_le_add_left (Edge.rank_le_raise (h.joins hformed hlayer hjoins)) _)

/-- Every layer that a visit reports has risen. -/
theorem visit_rank_lt (hformed : network.WellFormed) (hlayer : layer ∈ network.layers.toList)
    (hwithin : table.Within values network.size) (hsize : network.size ≤ table.size)
    (h : id ∈ (table.visit alters layer).2) :
    (table.get id).rank values < ((table.visit alters layer).1.get id).rank values := by
  have hfound := hformed.layer?_id hlayer
  unfold visit at h ⊢
  cases harriving : table.arrivingRange? layer with
  | none => simp [harriving] at h
  | some arriving =>
      have hrange : (table.joinedRange alters layer arriving).Among values :=
        hwithin.joins hformed hlayer ⟨arriving, harriving, rfl⟩
      have hown : id ∈ (if (table.joinLayer alters layer arriving).2.2 then [layer.id] else []) →
          (table.get id).rank values <
            ((table.joinLayer alters layer arriving).1.get id).rank values := by
        intro hmem
        split at hmem
        · rename_i hgrew
          obtain rfl := List.mem_singleton.1 hmem
          exact rank_lt_joinLayer hrange ((Network.lt_size hfound).trans_le hsize) hgrew
        · cases hmem
      simp only [harriving, joinLayer_range] at h ⊢
      split at h
      · rename_i hpositive
        rw [if_pos hpositive]
        rcases List.mem_append.1 h with h | h
        · exact (hown h).trans_le (rank_le_raiseOutputs hrange _ id)
        · have hproducers : ∀ p ∈ layer.predecessors,
              p < (table.joinLayer alters layer arriving).1.size := by
            intro p hp
            rw [size_joinLayer]
            exact (hformed.predecessor_lt hfound hp).trans_le hsize
          exact (rank_le_joinLayer hrange id).trans_lt
            (rank_lt_raiseOutputs hrange hproducers h)
      · rename_i hpositive
        rw [if_neg hpositive]
        exact hown h

/-- The ranges of a network do not fall in a visit. -/
theorem rank_le_visit (hformed : network.WellFormed) (hlayer : layer ∈ network.layers.toList)
    (hwithin : table.Within values network.size) :
    table.rank values network.size ≤ (table.visit alters layer).1.rank values network.size :=
  Finset.sum_le_sum fun id _ => visit_rank_le hformed hlayer hwithin id

/-- A visit that reports a layer raises the ranges of the network. -/
theorem rank_lt_visit (hformed : network.WellFormed) (hlayer : layer ∈ network.layers.toList)
    (hwithin : table.Within values network.size) (hsize : network.size ≤ table.size)
    (hreported : id ∈ (table.visit alters layer).2) :
    table.rank values network.size < (table.visit alters layer).1.rank values network.size := by
  have hid : id < network.size := by
    have hfound := hformed.layer?_id hlayer
    rcases mem_of_mem_visit hreported with rfl | hp
    · exact Network.lt_size hfound
    · exact hformed.predecessor_lt hfound hp
  exact Finset.sum_lt_sum (fun id _ => visit_rank_le hformed hlayer hwithin id)
    ⟨id, Finset.mem_range.2 hid, visit_rank_lt hformed hlayer hwithin hsize hreported⟩

end EdgeTable

end LayerQuant
