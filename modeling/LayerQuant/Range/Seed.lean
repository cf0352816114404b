import LayerQuant.Edge.Basic
import LayerQuant.Error

/-!
# Where ranges start

Before ranges are propagated, output ranges are taken from calibration, by layer name, and the
ranges of graph inputs are fixed by their scales. Both passes stop at the first layer without an
entry in the table and leave the entries before it changed.
-/

namespace LayerQuant

/-- The range that calibration saw at the output of the layer with the given name. A record whose
maximum does not exceed its minimum has none. -/
def Store.outputRange? (store : Store) (name : String) : Option Single := do
  let layer ← store.find? name
  let record ← (store.layers[layer]?).map (·.output)
  if record.maximum ≤ record.minimum then none
  else some (record.minimum.abs.maximum record.maximum.abs)

namespace EdgeTable

/-- Takes the output ranges of layers from calibration, counting them from `seeded` on. -/
def seedLayers (store : Store) : List Layer → Nat → EdgeTable → EdgeTable × Except Error Nat
  | [], seeded, table => (table, .ok seeded)
  | layer :: rest, seeded, table =>
    match store.outputRange? layer.name with
    | none => seedLayers store rest seeded table
    | some range =>
      if layer.id < table.size then
        seedLayers store rest (seeded + 1) (table.modifyOutput layer.id (·.setRange range))
      else (table, .error (.unknownLayer layer.id))

/-- Takes the output ranges of a network from calibration and counts the layers that have one. -/
def seed (table : EdgeTable) (network : Network) (store : Store) : EdgeTable × Except Error Nat :=
  seedLayers store network.layers.toList 0 table

/-- The entry of an input whose scale is known, with every range fixed by it. -/
def normalizeEdges (maxFeature : Single) (layer : LayerEdges) : LayerEdges :=
  match layer.input.scale? with
  | none => layer
  | some scale =>
    let range := maxFeature / scale
    { layer with
      input := (layer.input.setRange range).setAggregated range
      output := (layer.output.setRange range).setAggregated range }

/-- Fixes the ranges of the given inputs. -/
def normalizeIds (maxFeature : Single) : List Nat → EdgeTable → EdgeTable × Except Error Unit
  | [], table => (table, .ok ())
  | id :: rest, table =>
    if id < table.size then
      normalizeIds maxFeature rest (table.modify id (normalizeEdges maxFeature))
    else (table, .error (.unknownLayer id))

/-- Fixes the ranges of the inputs of a network, in place of calibrated ones. -/
def normalizeInputs (table : EdgeTable) (network : Network) (maxFeature : Single) :
    EdgeTable × Except Error Unit :=
  normalizeIds maxFeature network.inputs table

end EdgeTable

end LayerQuant
