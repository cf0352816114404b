import LayerQuant.Calibration.Store
import LayerQuant.Decimal.Fixed

/-!
# The table of a store

A store is shown as a table with a heading and one row per layer and role, its columns divided by
tabs. Every row carries the name of its layer.
-/

namespace LayerQuant

namespace Store

/-- A number in a column of the table. -/
def summaryNumber (x : Single) : String := alignRight 8 (x.toFixed 5)

/-- The row of one record of the named layer. -/
def summaryRow (layer : Nat) (name : String) (role : Role) (record : Record) : String :=
  let (mean, deviation) := record.meanDeviation
  "\t".intercalate
    [alignRight 4 (toString layer), role.tag.toString, summaryNumber record.minimum,
      summaryNumber record.maximum, summaryNumber mean, summaryNumber deviation, name]

/-- The table, each line ended by a line feed. -/
def summary (store : Store) : String :=
  let rows := store.layers.toList.zipIdx.flatMap fun (statistics, layer) =>
    Role.all.map fun role =>
      summaryRow layer statistics.output.name role (statistics.get role)
  String.join (("Id\tType\tMin\tMax\tMean\tStd dev\tIR op name" :: rows).map (· ++ "\n"))

end Store

end LayerQuant
