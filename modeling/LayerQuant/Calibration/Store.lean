import LayerQuant.Calibration.Role
import LayerQuant.Calibration.Record
import LayerQuant.Text.Blank

/-!
# Statistics of all layers

A store has one record per layer and role, and its size never changes. The name of a layer is the
name of its output record.
-/

namespace LayerQuant

/-- The four records of a layer. -/
structure LayerStatistics where
  input : Record := {}
  output : Record := {}
  weight : Record := {}
  bias : Record := {}
deriving DecidableEq, Inhabited

namespace LayerStatistics

/-- The record of a role. -/
def get (layer : LayerStatistics) : Role → Record
  | .input => layer.input
  | .output => layer.output
  | .weight => layer.weight
  | .bias => layer.bias

/-- Changes the record of a role. -/
def modify (layer : LayerStatistics) (role : Role) (change : Record → Record) : LayerStatistics :=
  match role with
  | .input => { layer with input := change layer.input }
  | .output => { layer with output := change layer.output }
  | .weight => { layer with weight := change layer.weight }
  | .bias => { layer with bias := change layer.bias }

@[simp] theorem get_modify_self (layer : LayerStatistics) (role : Role) (change : Record → Record) :
    (layer.modify role change).get role = change (layer.get role) := by
  cases role <;> rfl

theorem get_modify_of_ne (layer : LayerStatistics) {role other : Role} (h : other ≠ role)
    (change : Record → Record) : (layer.modify role change).get other = layer.get other := by
  cases role <;> cases other <;> simp_all [modify, get]

end LayerStatistics

/-- Why a store was not read or changed. -/
inductive StoreError where
  | layerOutOfRange (layer count : Nat)
deriving DecidableEq, Repr

/-- The wording of a store error. -/
def StoreError.message : StoreError → String
  | layerOutOfRange layer count =>
    s!"Layer index {layer} out of range (store holds {count} layers)"

/-- Statistics of the layers of a network, by position. -/
structure Store where
  layers : Array LayerStatistics
deriving DecidableEq, Inhabited

/-- Whether a character is dropped at the ends of a layer name. -/
def isNameBlank (c : Char) : Bool := c == ' ' || c == '\t' || c == '\r' || c == '\n'

/-- A layer name as it is stored and looked up. -/
def trimName (name : String) : String := String.ofList (Text.trimBy isNameBlank name.toList)

namespace Store

/-- A store of untouched records. -/
def empty (count : Nat) : Store := ⟨Array.replicate count {}⟩

/-- Number of layers. -/
def size (store : Store) : Nat := store.layers.size

/-- The record of a layer and role. -/
def record (store : Store) (layer : Nat) (role : Role) : Except StoreError Record :=
  match store.layers[layer]? with
  | some statistics => .ok (statistics.get role)
  | none => .error (.layerOutOfRange layer store.size)

/-- Changes the record of a layer and role. -/
def modify (store : Store) (layer : Nat) (role : Role) (change : Record → Record) :
    Except StoreError Store :=
  if layer < store.size then .ok ⟨store.layers.modify layer (·.modify role change)⟩
  else .error (.layerOutOfRange layer store.size)

/-- Folds samples into the record of a layer and role. -/
def update (store : Store) (layer : Nat) (role : Role) (samples : List Single) :
    Except StoreError Store :=
  store.modify layer role (·.fold samples)

/-- Names a layer. -/
def setName (store : Store) (layer : Nat) (name : String) : Except StoreError Store :=
  store.modify layer .output ({ · with name := trimName name })

/-- The name of a layer. -/
def name (store : Store) (layer : Nat) : Except StoreError String :=
  (store.record layer .output).map (·.name)

/-- The first layer with the given name, compared after trimming. -/
def find? (store : Store) (name : String) : Option Nat :=
  store.layers.findIdx? (·.output.name == trimName name)

/-- All records with their layer and role, in the order of a snapshot. -/
def rows (store : Store) : List (Nat × Role × Record) :=
  store.layers.toList.zipIdx.flatMap fun (statistics, layer) =>
    Role.all.map fun role => (layer, role, statistics.get role)

/-- Whether two stores hold the same layers with equal numbers. -/
def agrees (a b : Store) : Bool :=
  a.size == b.size &&
    (a.rows.zip b.rows).all fun ((_, _, record), (_, _, other)) => record.agrees other

end Store

end LayerQuant
