import LayerQuant.Binary.Arithmetic

/-!
# Running statistics of one tensor

A record keeps the extrema, the sum and the sum of squares of the samples folded into it. The
extrema start reversed, so the first sample sets both and an untouched record is recognised by
having no range. Sums are kept at double precision; a batch is summed before it is added.
-/

namespace LayerQuant

/-- The minimum before any sample. -/
def startMinimum : Single := .ofDecimal .single false 1 20

/-- The maximum before any sample. -/
def startMaximum : Single := .ofDecimal .single true 1 20

/-- Running statistics of one tensor of one layer. -/
structure Record where
  minimum : Single := startMinimum
  maximum : Single := startMaximum
  sum : Double := .zero
  sumSquares : Double := .zero
  /-- Number of samples folded in, counted modulo `2 ^ 64`. -/
  count : UInt64 := 0
  /-- Name of the layer. Sessions store it with the output record only. -/
  name : String := ""
deriving DecidableEq, Inhabited

namespace Record

/-- Folds a batch of samples into the record. Samples that are not numbers leave the extrema. -/
def fold (record : Record) (samples : List Single) : Record :=
  if samples.isEmpty then record
  else
    let wide := samples.map (Binary.convert .double)
    { record with
      minimum := samples.foldl (fun low x => if x < low then x else low) record.minimum
      maximum := samples.foldl (fun high x => if high < x then x else high) record.maximum
      sum := record.sum + wide.foldl (· + ·) .zero
      sumSquares := record.sumSquares + wide.foldl (fun total x => total + x * x) .zero
      count := record.count + UInt64.ofNat samples.length }

/-- Whether nothing was folded in. -/
def isEmpty (record : Record) : Bool := record.count == 0

/-- Whether the extrema span a range. -/
def hasRange (record : Record) : Bool := record.minimum < record.maximum

/-- The larger magnitude of the two extrema. -/
def largestMagnitude (record : Record) : Single :=
  record.maximum.abs.maximum record.minimum.abs

/-- Mean and unbiased standard deviation. Without samples both are zero, and a single sample is its
own mean. A negative rounding residue of the variance counts as zero. -/
def meanDeviation (record : Record) : Single × Single :=
  if record.count = 0 then (.zero, .zero)
  else if record.count = 1 then (record.sum.convert .single, .zero)
  else
    let n := Binary.ofNat .double record.count.toNat
    let two := Binary.ofNat .double 2
    let mean := record.sum / n
    let residue := record.sumSquares - two * mean * record.sum + mean * mean * n
    let deviation : Double :=
      if residue < .zero then .zero else (residue / (n - Binary.ofNat .double 1)).sqrt
    (mean.convert .single, deviation.convert .single)

/-- Whether two records hold equal numbers and the same name. A record with a datum that is not a
number agrees with no record. -/
def agrees (a b : Record) : Bool :=
  a.minimum.sameNumber b.minimum && a.maximum.sameNumber b.maximum && a.sum.sameNumber b.sum &&
    a.sumSquares.sameNumber b.sumSquares && a.count == b.count && a.name == b.name

@[simp] theorem fold_nil (record : Record) : record.fold [] = record := rfl

@[simp] theorem name_fold (record : Record) (samples : List Single) :
    (record.fold samples).name = record.name := by
  unfold fold
  split <;> rfl

end Record

end LayerQuant
