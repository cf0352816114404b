import LayerQuant.Edge.Scale

/-!
# Tensor edges

What is known about one tensor of a layer: its scale, its range as calibration saw it, and the range
aggregated over the tensors connected to it. A value that is unknown is never confused with zero,
and what is once known stays known.
-/

namespace LayerQuant

/-- Scale and ranges of one tensor. -/
structure Edge where
  scale? : Option Single := none
  /-- Number of quantization levels, zero while unknown. -/
  levels : Int := 0
  /-- Least values per channel. -/
  minima : List Single := []
  /-- Greatest values per channel. -/
  maxima : List Single := []
  /-- Range of this tensor alone. -/
  range? : Option Single := none
  /-- Range joined over connected tensors. -/
  aggregated? : Option Single := none
deriving DecidableEq, Inhabited

namespace Edge

/-- The scale, one while unknown. -/
def scale (edge : Edge) : Single := edge.scale?.getD (.ofNat .single 1)

/-- The range, zero while unknown. -/
def range (edge : Edge) : Single := edge.range?.getD .zero

/-- The aggregated range, zero while unknown. -/
def aggregated (edge : Edge) : Single := edge.aggregated?.getD .zero

/-- Sets the scale. -/
def setScale (edge : Edge) (scale : Single) : Edge := { edge with scale? := some scale }

/-- Sets the range of the tensor alone. -/
def setRange (edge : Edge) (range : Single) : Edge := { edge with range? := some range }

/-- Sets the aggregated range, whatever it was. -/
def setAggregated (edge : Edge) (range : Single) : Edge := { edge with aggregated? := some range }

/-- Whether joining `range` into the aggregated range would change it: it is unknown, or `range` is
not at most it. -/
def raises (edge : Edge) (range : Single) : Bool :=
  match edge.aggregated? with
  | none => true
  | some known => !(range ≤ known : Bool)

/-- Joins `range` into the aggregated range. -/
def raise (edge : Edge) (range : Single) : Edge :=
  if edge.raises range then edge.setAggregated range else edge

/-- The larger of the ranges that are known. -/
def knownRange? (edge : Edge) : Option Single :=
  match edge.range?, edge.aggregated? with
  | none, none => none
  | some range, none => some range
  | none, some aggregated => some aggregated
  | some range, some aggregated => some (range.maximum aggregated)

/-- The scale that the aggregated range asks for, if that range is above the least one. -/
def rangeScale? (edge : Edge) (rule : ScaleRule) : Option Single :=
  match edge.aggregated? with
  | some range => if rule.minRange < range then some (rule.scaleFor range) else none
  | none => none

/-- The scale that the aggregated range asks for, else the scale that was set, else a default. -/
def deriveScale (edge : Edge) (fallback : Single) (rule : ScaleRule) : Single :=
  (edge.rangeScale? rule).getD (edge.scale?.getD fallback)

end Edge

/-- The tensors of one layer. -/
structure LayerEdges where
  input : Edge := {}
  output : Edge := {}
  weights : Edge := {}
  bias : Edge := {}
  /-- Whether the weights were converted to integers. -/
  weightsQuantized : Bool := false
deriving DecidableEq, Inhabited

/-- The tensors of the layers of a network, by layer id. A table may be shorter or longer than a
network it is used with. -/
structure EdgeTable where
  layers : Array LayerEdges
deriving DecidableEq, Inhabited

namespace EdgeTable

/-- A table in which nothing is known. -/
def empty (count : Nat) : EdgeTable := ⟨Array.replicate count {}⟩

/-- Number of layers with an entry. -/
def size (table : EdgeTable) : Nat := table.layers.size

/-- The entry of a layer. A layer without an entry has one in which nothing is known. -/
def get (table : EdgeTable) (id : Nat) : LayerEdges := table.layers.getD id {}

/-- Changes the entry of a layer, if it has one. -/
def modify (table : EdgeTable) (id : Nat) (change : LayerEdges → LayerEdges) : EdgeTable :=
  ⟨table.layers.modify id change⟩

/-- Changes the input tensor of a layer. -/
def modifyInput (table : EdgeTable) (id : Nat) (change : Edge → Edge) : EdgeTable :=
  table.modify id fun layer => { layer with input := change layer.input }

/-- Changes the output tensor of a layer. -/
def modifyOutput (table : EdgeTable) (id : Nat) (change : Edge → Edge) : EdgeTable :=
  table.modify id fun layer => { layer with output := change layer.output }

@[simp] theorem size_modify (table : EdgeTable) (id : Nat) (change : LayerEdges → LayerEdges) :
    (table.modify id change).size = table.size := by
  simp [modify, size]

theorem get_modify_self {table : EdgeTable} {id : Nat} (h : id < table.size)
    (change : LayerEdges → LayerEdges) :
    (table.modify id change).get id = change (table.get id) := by
  have h' : id < table.layers.size := h
  simp [modify, get, Array.getElem_modify, h']

theorem get_modify_of_ne {table : EdgeTable} {id other : Nat} (h : other ≠ id)
    (change : LayerEdges → LayerEdges) : (table.modify id change).get other = table.get other := by
  simp [modify, get, Array.getD_eq_getD_getElem?, Array.getElem?_modify, Ne.symm h]

/-- A change reaches the entry it is made at, if there is one, and no other. -/
theorem get_modify (table : EdgeTable) (id : Nat) (change : LayerEdges → LayerEdges)
    (other : Nat) :
    (table.modify id change).get other =
      if other = id ∧ id < table.size then change (table.get other) else table.get other := by
  by_cases hother : other = id
  · subst hother
    by_cases hsize : other < table.size
    · rw [get_modify_self hsize, if_pos ⟨rfl, hsize⟩]
    · have hlayers : table.layers.size ≤ other := Nat.le_of_not_lt hsize
      rw [if_neg (fun h => hsize h.2)]
      simp [modify, get, hlayers]
  · rw [get_modify_of_ne hother, if_neg (fun h => hother h.1)]

end EdgeTable

end LayerQuant
