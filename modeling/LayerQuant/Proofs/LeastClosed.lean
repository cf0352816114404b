import Mathlib
import LayerQuant.Proofs.Closure

/-!
# A finished propagation leaves the least closed table

Tables are compared by their aggregated ranges, an unknown range being at most everything. Visits
raise ranges (`Grown`) and stay below every closed table that lies above the start (`visit_atMost`):
what a visit joins is at most the largest range that meets at the same layer of the closed table,
which has spread there already. Read `propagate_least_closed` first.
-/

namespace LayerQuant

namespace Edge

variable {edge lower upper : Edge} {range known : Single}

/-- The ranges that are known are numbers. -/
def HasNumbers (edge : Edge) : Prop :=
  ∀ known, edge.range? = some known ∨ edge.aggregated? = some known → known.isNaN = false

/-- The aggregated range is unknown, or the other edge has one that is at least it. -/
def AtMost (lower upper : Edge) : Prop :=
  ∀ known, lower.aggregated? = some known → upper.Reaches known

theorem AtMost.refl (h : edge.HasNumbers) : edge.AtMost edge := by
  intro known hknown
  exact ⟨known, hknown, Binary.le_refl_of_number (h known (Or.inr hknown))⟩

theorem Reaches.mono (h : edge.Reaches range) (hle : known ≤ range) : edge.Reaches known := by
  obtain ⟨aggregated, hedge, hrange⟩ := h
  exact ⟨aggregated, hedge, Binary.le_trans' hle hrange⟩

theorem Holds.reaches (h : edge.Holds range) : edge.Reaches range := by
  obtain ⟨aggregated, hedge, hsame⟩ := h
  exact ⟨aggregated, hedge, (Binary.sameNumber_iff.1 hsame).2⟩

theorem HasNumbers.raise (h : edge.HasNumbers) (hrange : range.isNaN = false) :
    (edge.raise range).HasNumbers := by
  unfold Edge.raise
  split
  · rintro known (hknown | hknown)
    · exact h known (Or.inl hknown)
    · obtain rfl := Option.some.inj hknown
      exact hrange
  · exact h

/-- An edge is raised to at most what the upper edge has reached. -/
theorem AtMost.raise_left (h : lower.AtMost upper) (hupper : upper.Reaches range) :
    (lower.raise range).AtMost upper := by
  unfold Edge.raise
  split
  · intro known hknown
    obtain rfl := Option.some.inj hknown
    exact hupper
  · exact h

/-- Raising keeps an edge above another one. -/
theorem AtMost.raise_right (h : lower.AtMost upper) (hnumbers : upper.HasNumbers)
    (hrange : range.isNaN = false) : lower.AtMost (upper.raise range) := by
  intro known hknown
  obtain ⟨aggregated, hedge, hle⟩ := h known hknown
  cases hraises : upper.raises range with
  | false =>
      rw [raise_of_not_raises hraises]
      exact ⟨aggregated, hedge, hle⟩
  | true =>
      rw [raise_of_raises hraises]
      have hlt : aggregated < range := by
        refine Binary.lt_of_not_le' hrange (hnumbers aggregated (Or.inr hedge)) fun hback => ?_
        rw [raises_eq_false.2 ⟨aggregated, hedge, hback⟩] at hraises
        cases hraises
      exact ⟨range, rfl, Binary.le_trans' hle (Binary.le_of_lt' hlt)⟩

/-- A known range is the range of the edge or its aggregated range. -/
theorem knownRange?_cases (h : edge.knownRange? = some known) :
    edge.range? = some known ∨ edge.aggregated? = some known := by
  unfold knownRange? at h
  split at h
  · cases h
  · simp_all
  · simp_all
  · rename_i range aggregated hrange haggregated
    obtain rfl := Option.some.inj h
    rcases Binary.maximum_cases range aggregated with hmax | hmax
    · exact Or.inl (by rw [hrange, hmax])
    · exact Or.inr (by rw [haggregated, hmax])

/-- Edges of one range whose aggregated ranges compare have known ranges that compare. -/
theorem AtMost.knownRange (h : lower.AtMost upper) (hrange : lower.range? = upper.range?)
    (hknown : lower.knownRange? = some known) (hnumber : known.isNaN = false) :
    ∃ whole, upper.knownRange? = some whole ∧ known ≤ whole := by
  rcases knownRange?_cases hknown with hown | haggregated
  · exact range_le_known (hrange ▸ hown) hnumber
  · obtain ⟨aggregated, hupper, hle⟩ := h known haggregated
    obtain ⟨whole, hwhole, hrest⟩ :=
      aggregated_le_known hupper (Binary.number_of_le_right hle)
    exact ⟨whole, hwhole, Binary.le_trans' hle hrest⟩

end Edge

namespace LayerEdges

/-- The entry without its aggregated ranges. -/
def withoutAggregated (layer : LayerEdges) : LayerEdges :=
  { layer with
    input := { layer.input with aggregated? := none }
    output := { layer.output with aggregated? := none } }

/-- The aggregated ranges of the one entry are at most those of the other. -/
structure AtMost (lower upper : LayerEdges) : Prop where
  input : lower.input.AtMost upper.input
  output : lower.output.AtMost upper.output

/-- The known ranges of both tensors are numbers. -/
structure HasNumbers (layer : LayerEdges) : Prop where
  input : layer.input.HasNumbers
  output : layer.output.HasNumbers

/-- The entry was made from `start` by raising aggregated ranges to numbers. -/
structure GrownFrom (start layer : LayerEdges) : Prop where
  numbers : layer.HasNumbers
  atMost : start.AtMost layer
  rest : layer.withoutAggregated = start.withoutAggregated

variable {start layer : LayerEdges} {range : Single}

theorem withoutAggregated_raise_input :
    { layer with input := layer.input.raise range }.withoutAggregated =
      layer.withoutAggregated := by
  cases hraises : layer.input.raises range with
  | true => simp only [withoutAggregated, Edge.raise_of_raises hraises, Edge.setAggregated]
  | false => simp only [withoutAggregated, Edge.raise_of_not_raises hraises]

theorem withoutAggregated_raise_output :
    { layer with output := layer.output.raise range }.withoutAggregated =
      layer.withoutAggregated := by
  cases hraises : layer.output.raises range with
  | true => simp only [withoutAggregated, Edge.raise_of_raises hraises, Edge.setAggregated]
  | false => simp only [withoutAggregated, Edge.raise_of_not_raises hraises]

/-- Raising the input of an entry goes on growing it. -/
theorem GrownFrom.raise_input (h : GrownFrom start layer) (hrange : range.isNaN = false) :
    GrownFrom start { layer with input := layer.input.raise range } where
  numbers := ⟨h.numbers.input.raise hrange, h.numbers.output⟩
  atMost := ⟨h.atMost.input.raise_right h.numbers.input hrange, h.atMost.output⟩
  rest := withoutAggregated_raise_input.trans h.rest

/-- Raising the output of an entry goes on growing it. -/
theorem GrownFrom.raise_output (h : GrownFrom start layer) (hrange : range.isNaN = false) :
    GrownFrom start { layer with output := layer.output.raise range } where
  numbers := ⟨h.numbers.input, h.numbers.output.raise hrange⟩
  atMost := ⟨h.atMost.input, h.atMost.output.raise_right h.numbers.output hrange⟩
  rest := withoutAggregated_raise_output.trans h.rest

theorem output_range_of_rest {other : LayerEdges}
    (h : layer.withoutAggregated = other.withoutAggregated) :
    layer.output.range? = other.output.range? := by
  have houtput := congrArg (·.output.range?) h
  exact houtput

end LayerEdges

namespace EdgeTable

/-- All known ranges are numbers. -/
def HasNumbers (table : EdgeTable) : Prop := ∀ id, (table.get id).HasNumbers

/-- The aggregated ranges of the one table are at most those of the other, layer by layer. -/
def AtMost (lower upper : EdgeTable) : Prop := ∀ id, (lower.get id).AtMost (upper.get id)

/-- The tensors have the same ranges of their own. -/
def SameRanges (table other : EdgeTable) : Prop :=
  ∀ id, (table.get id).input.range? = (other.get id).input.range? ∧
    (table.get id).output.range? = (other.get id).output.range?

/-- The table was made from `start` by raising aggregated ranges to numbers. -/
def Grown (start table : EdgeTable) : Prop := ∀ id, (start.get id).GrownFrom (table.get id)

/-- Among the tables above `start` with its ranges, `result` is the least one that is closed, and it
differs from `start` in aggregated ranges only. -/
structure IsLeastClosed (alters : Layer → Bool) (network : Network) (start result : EdgeTable) :
    Prop where
  closed : result.Closed alters network
  above : start.AtMost result
  rest : ∀ id, (result.get id).withoutAggregated = (start.get id).withoutAggregated
  least : ∀ upper : EdgeTable, upper.Closed alters network → start.SameRanges upper →
    start.AtMost upper → result.AtMost upper

variable {alters : Layer → Bool} {network : Network} {layer : Layer}
  {start table upper : EdgeTable} {range : Single}

/-- A table has numbers if each of its entries does. -/
theorem hasNumbers_of_forall (h : ∀ edges ∈ table.layers,
    ∀ known ∈ [edges.input.range?, edges.input.aggregated?, edges.output.range?,
      edges.output.aggregated?].reduceOption, known.isNaN = false) : table.HasNumbers := by
  intro id
  unfold get
  rw [Array.getD_eq_getD_getElem?]
  cases hedges : table.layers[id]? with
  | none => exact ⟨by simp [Edge.HasNumbers], by simp [Edge.HasNumbers]⟩
  | some edges =>
      have hknown := h edges (Array.mem_of_getElem? hedges)
      simp only [List.reduceOption_mem_iff, List.mem_cons, List.not_mem_nil, or_false] at hknown
      constructor
      · rintro known (hrange | haggregated)
        · exact hknown known (Or.inl hrange.symm)
        · exact hknown known (Or.inr (Or.inl haggregated.symm))
      · rintro known (hrange | haggregated)
        · exact hknown known (Or.inr (Or.inr (Or.inl hrange.symm)))
        · exact hknown known (Or.inr (Or.inr (Or.inr haggregated.symm)))

/-- A table of numbers is grown from itself. -/
theorem HasNumbers.grown (h : table.HasNumbers) : table.Grown table := by
  intro id
  exact ⟨h id, ⟨Edge.AtMost.refl (h id).input, Edge.AtMost.refl (h id).output⟩, rfl⟩

/-- The ranges that meet at a layer are known to its producers or aggregated at it. -/
theorem mem_meeting {known : Single} : known ∈ table.meeting alters layer ↔
    (∃ p ∈ layer.predecessors, (table.get p).output.knownRange? = some known) ∨
      (alters layer = false ∧ ((table.get layer.id).input.aggregated? = some known ∨
        (table.get layer.id).output.aggregated? = some known)) := by
  unfold meeting
  rw [List.mem_append, List.mem_filterMap]
  cases alters layer with
  | true => simp
  | false =>
      simp only [Bool.false_eq_true, if_false, List.reduceOption_mem_iff, List.mem_cons,
        List.not_mem_nil, or_false, true_and, eq_comm]

/-- In a table of numbers a visit joins a number. -/
theorem HasNumbers.joins (h : table.HasNumbers) (hjoins : table.Joins alters layer range) :
    range.isNaN = false := by
  rcases mem_meeting.1 hjoins.isLargest.1 with ⟨p, _, hknown⟩ | ⟨_, hinput | houtput⟩
  · exact (h p).output range (Edge.knownRange?_cases hknown)
  · exact (h layer.id).input range (Or.inr hinput)
  · exact (h layer.id).output range (Or.inr houtput)

/-- A visit goes on growing a table. -/
theorem Grown.visit (h : start.Grown table) : start.Grown (table.visit alters layer).1 := by
  have hnumbers : table.HasNumbers := fun id => (h id).numbers
  exact visit_pointwise (R := fun id edges => (start.get id).GrownFrom edges) h
    (fun _ hjoins _ hedges => hedges.raise_input (hnumbers.joins hjoins))
    (fun _ hjoins _ _ _ hedges => hedges.raise_output (hnumbers.joins hjoins))

/-- What meets at a layer is at most something that meets there in an upper table. -/
theorem AtMost.meeting (h : table.AtMost upper)
    (hranges : ∀ id, (table.get id).output.range? = (upper.get id).output.range?) {known : Single}
    (hmem : known ∈ table.meeting alters layer) (hnumber : known.isNaN = false) :
    ∃ whole ∈ upper.meeting alters layer, known ≤ whole := by
  rcases mem_meeting.1 hmem with ⟨p, hp, hknown⟩ | ⟨halters, hinput | houtput⟩
  · obtain ⟨whole, hwhole, hle⟩ := (h p).output.knownRange (hranges p) hknown hnumber
    exact ⟨whole, mem_meeting.2 (Or.inl ⟨p, hp, hwhole⟩), hle⟩
  · obtain ⟨whole, hwhole, hle⟩ := (h layer.id).input known hinput
    exact ⟨whole, mem_meeting.2 (Or.inr ⟨halters, Or.inl hwhole⟩), hle⟩
  · obtain ⟨whole, hwhole, hle⟩ := (h layer.id).output known houtput
    exact ⟨whole, mem_meeting.2 (Or.inr ⟨halters, Or.inr hwhole⟩), hle⟩

/-- A layer with something to join has a producer with a known range, here and in every upper
table. -/
theorem AtMost.exists_known (h : table.AtMost upper) (hnumbers : table.HasNumbers)
    (hranges : ∀ id, (table.get id).output.range? = (upper.get id).output.range?)
    (hjoins : table.Joins alters layer range) :
    ∃ p ∈ layer.predecessors, (upper.get p).output.knownRange?.isSome := by
  obtain ⟨arriving, harriving, _⟩ := hjoins
  obtain ⟨p, hp, hknown⟩ :=
    List.mem_filterMap.1 (Binary.isLargest_of_largest? harriving).1
  obtain ⟨whole, hwhole, _⟩ := (h p).output.knownRange (hranges p) hknown
    ((hnumbers p).output arriving (Edge.knownRange?_cases hknown))
  exact ⟨p, hp, by simp [hwhole]⟩

/-- A visit stays below a closed table with the same ranges. -/
theorem visit_atMost (hnumbers : table.HasNumbers) (hclosed : upper.Closed alters network)
    (hranges : ∀ id, (table.get id).output.range? = (upper.get id).output.range?)
    (hmem : layer ∈ network.layers.toList) (h : table.AtMost upper) :
    (table.visit alters layer).1.AtMost upper := by
  -- The closed table has spread a range that is at least the one that the visit joins.
  have hspread : ∀ range, table.Joins alters layer range →
      ∃ largest, range ≤ largest ∧ ClosedAt alters upper layer largest := by
    intro range hjoins
    have hknown := h.exists_known hnumbers hranges hjoins
    obtain ⟨largest, hlargest⟩ := exists_joins alters hknown
    obtain ⟨whole, hwhole, hle⟩ :=
      h.meeting hranges hjoins.isLargest.1 (hnumbers.joins hjoins)
    exact ⟨largest,
      Binary.le_trans' hle (hlargest.isLargest.le hwhole (Binary.number_of_le_right hle)),
      hclosed layer hmem hknown largest hlargest.isLargest⟩
  refine visit_pointwise (R := fun id edges => edges.AtMost (upper.get id)) h ?_ ?_
  · intro range hjoins edges hedges
    obtain ⟨largest, hle, hupper⟩ := hspread range hjoins
    exact ⟨hedges.input.raise_left (hupper.input.mono hle), hedges.output⟩
  · intro range hjoins id hid edges hedges
    obtain ⟨largest, hle, hupper⟩ := hspread range hjoins
    refine ⟨hedges.input, hedges.output.raise_left ?_⟩
    rcases hid with ⟨halters, rfl⟩ | ⟨hpositive, hp⟩
    · exact (hupper.kept halters).2.reaches.mono hle
    · exact (hupper.producers (Binary.lt_of_lt_of_le' hpositive hle) id hp).reaches.mono hle

end EdgeTable

namespace Propagator

variable {propagator : Propagator} {network : Network} {table : EdgeTable} {report : Propagation}

/-- A propagation, also one that fails, changes nothing but aggregated ranges. -/
theorem propagate_rest (propagator : Propagator) (network : Network) (table : EdgeTable)
    (id : Nat) :
    ((propagator.propagate network table).1.get id).withoutAggregated =
      (table.get id).withoutAggregated :=
  propagate_table (Φ := fun current => ∀ id,
      (current.get id).withoutAggregated = (table.get id).withoutAggregated)
    (fun _ _ _ hcurrent => EdgeTable.visit_pointwise
      (R := fun id edges => edges.withoutAggregated = (table.get id).withoutAggregated) hcurrent
      (fun _ _ _ hedges => LayerEdges.withoutAggregated_raise_input.trans hedges)
      (fun _ _ _ _ _ hedges => LayerEdges.withoutAggregated_raise_output.trans hedges))
    (fun _ => rfl) id

/-- A propagation of numbers, also one that fails, only raises aggregated ranges. -/
theorem propagate_grown (h : table.HasNumbers) :
    table.Grown (propagator.propagate network table).1 :=
  propagate_table (fun _ _ _ hgrown => hgrown.visit) h.grown

/-- A propagation, also one that fails, stays below every closed table above the start. -/
theorem propagate_atMost (h : table.HasNumbers) {upper : EdgeTable}
    (hclosed : upper.Closed propagator.alters network) (hranges : table.SameRanges upper)
    (hupper : table.AtMost upper) : (propagator.propagate network table).1.AtMost upper := by
  refine (propagate_table (Φ := fun current => table.Grown current ∧ current.AtMost upper)
    (fun layer hmem current hcurrent => ?_) ⟨h.grown, hupper⟩).2
  obtain ⟨hgrown, hatMost⟩ := hcurrent
  refine ⟨hgrown.visit, EdgeTable.visit_atMost (fun id => (hgrown id).numbers) hclosed
    (fun id => ?_) hmem hatMost⟩
  exact (LayerEdges.output_range_of_rest (hgrown id).rest).trans (hranges id).2

/-- A propagation that succeeds leaves the least closed table above the one it was given. -/
theorem propagate_least_closed (hbuilt : network.Built) (hnumbers : table.HasNumbers)
    (h : (propagator.propagate network table).2 = .ok report) :
    EdgeTable.IsLeastClosed propagator.alters network table
      (propagator.propagate network table).1 where
  closed := propagate_closed hbuilt h
  above := fun id => (propagate_grown hnumbers id).atMost
  rest := fun id => (propagate_grown hnumbers id).rest
  least := fun _ hclosed hranges hupper => propagate_atMost hnumbers hclosed hranges hupper

/-- An input and a copy of it that also reads itself, one step later. -/
def echo : Network where
  layers := #[{ id := 0, name := "in", kind := .input },
    { id := 1, name := "echo", kind := .copy, inputs := [0], recurrentInputs := [1] }]
  inputs := [0]

theorem echo_built : echo.Built := by
  have hinput : Network.addInput {} "in" =
      .ok (⟨#[{ id := 0, name := "in", kind := .input }], [0]⟩, 0) := by cbv
  have hcopy : Network.addLayer ⟨#[{ id := 0, name := "in", kind := .input }], [0]⟩ "echo" .copy
      [0] = .ok (⟨#[{ id := 0, name := "in", kind := .input },
        { id := 1, name := "echo", kind := .copy, inputs := [0] }], [0]⟩, 1) := by cbv
  have hedge : Network.addRecurrentEdge ⟨#[{ id := 0, name := "in", kind := .input },
      { id := 1, name := "echo", kind := .copy, inputs := [0] }], [0]⟩ 1 1 = .ok echo := by cbv
  exact .addRecurrentEdge (.addLayer (.addInput .empty hinput) hcopy) hedge

/-- The range of the input of `echo` is three. -/
def echoTable : EdgeTable where
  layers := #[{ output := { range? := some (.ofNat .single 3) } }, {}]

theorem echo_least_closed :
    echo.Built ∧ echoTable.HasNumbers ∧
      ((Config.propagator {}).propagate echo echoTable).2 = .ok { steps := 4 } ∧
      EdgeTable.IsLeastClosed (·.kind.altersRange) echo echoTable
        ((Config.propagator {}).propagate echo echoTable).1 := by
  have hnumbers : echoTable.HasNumbers := by
    have hthree : (Binary.ofNat .single 3).isNaN = false := rfl
    intro id
    rcases id with _ | _ | id
    · exact ⟨by simp [Edge.HasNumbers, EdgeTable.get, echoTable],
        by simp [Edge.HasNumbers, EdgeTable.get, echoTable, hthree]⟩
    · exact ⟨by simp [Edge.HasNumbers, EdgeTable.get, echoTable],
        by simp [Edge.HasNumbers, EdgeTable.get, echoTable]⟩
    · exact ⟨by simp [Edge.HasNumbers, EdgeTable.get, echoTable],
        by simp [Edge.HasNumbers, EdgeTable.get, echoTable]⟩
  have hok : ((Config.propagator {}).propagate echo echoTable).2 = .ok { steps := 4 } := by
    have horder : echo.topologicalOrder = .ok [0, 1] := by cbv
    have hsuccessors : echo.successorLists = #[[1], [1]] := by cbv
    rw [Propagator.propagate, horder, hsuccessors]
    decide +kernel
  exact ⟨echo_built, hnumbers, hok, propagate_least_closed echo_built hnumbers hok⟩

end Propagator

end LayerQuant
