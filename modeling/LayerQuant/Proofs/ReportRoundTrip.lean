import Mathlib
import LayerQuant.Pipeline.Document
import LayerQuant.Proofs.JsonEncoding

/-!
# Reports read back from what is printed

An encoding prints a number that is not finite as null, which is read as a missing number where one
may be missing and refused elsewhere. So every report is printed, it is read again exactly if the
numbers that must be there are finite, and then all that is lost are the others that are not finite
(`exists_print`). This holds of every encoding with the `Encoding.Laws`, and finite numbers are
taken to be read back, by `Encoding.ReadsBack`. Read `finiteOnly` and `print_comes_back` first.
-/

namespace LayerQuant

/-! ## Parts of a report -/

/-- The numbers of a layer that must be there. -/
def LayerScales.mandatory (layer : LayerScales) : List Single :=
  [layer.inputScale, layer.outputScale]

/-- The numbers of a layer that are there but may be missing. -/
def LayerScales.optional (layer : LayerScales) : List Single :=
  layer.weightScale?.toList ++ layer.outputRange?.toList

/-- The layer without the numbers that may be missing and are not finite. -/
def LayerScales.finiteOnly (layer : LayerScales) : LayerScales :=
  { layer with
    weightScale? := layer.weightScale?.filter (·.isFinite)
    outputRange? := layer.outputRange?.filter (·.isFinite) }

/-- The numbers of an anomaly. -/
def RangeAnomaly.numbers (anomaly : RangeAnomaly) : List Single :=
  [anomaly.calibrated, anomaly.aggregated]

/-- The numbers of a conflict. -/
def ScaleConflict.numbers (conflict : ScaleConflict) : List Single :=
  [conflict.required, conflict.actual]

/-! ## Parts read back -/

/-- What goes on from a value that is there on a condition is there on it too. -/
theorem bind_ite {α β : Type} {p : Prop} [Decidable p] {a : α} (f : α → Option β) :
    (if p then some a else none).bind f = if p then f a else none := by
  split <;> rfl

/-- What is made of two numbers is made if both are finite. -/
theorem bind_finite {α : Type} {x y : Single} (make : Single → Single → α) :
    ((if x.isFinite = true then some x else none).bind fun a =>
      (if y.isFinite = true then some y else none).bind fun b => some (make a b)) =
        if ∀ z ∈ [x, y], z.isFinite = true then some (make x y) else none := by
  simp only [bind_ite, ← ite_and, List.forall_mem_cons, List.not_mem_nil, false_implies,
    implies_true, and_true]

theorem LayerScales.nests_toData (layer : LayerScales) (depth : Nat) :
    layer.toData.Nests (depth + 1) := by
  cases depth <;> simp [toData, Data.Nests, Data.nests_ofSingle?]

theorem RangeAnomaly.nests_toData (anomaly : RangeAnomaly) (depth : Nat) :
    anomaly.toData.Nests (depth + 1) := by
  cases depth <;> simp [toData, Data.Nests]

theorem ScaleConflict.nests_toData (conflict : ScaleConflict) (depth : Nat) :
    conflict.toData.Nests (depth + 1) := by
  cases depth <;> simp [toData, Data.Nests]

section Parts

variable {encoding : Encoding} (laws : encoding.Laws)
include laws

/-- A layer is read exactly if the numbers that must be there are finite. -/
theorem LayerScales.yields {layer : LayerScales} (hid : layer.id < Nat.pow 2 64)
    (h : ∀ x ∈ layer.mandatory ++ layer.optional, x.isFinite = true → encoding.ReadsBack x) :
    encoding.Yields layer.toData (decode? encoding)
      (if ∀ x ∈ layer.mandatory, x.isFinite = true then some layer.finiteOnly else none) := by
  obtain ⟨id, hidAgain, hid⟩ := laws.nat hid
  obtain ⟨name, hnameAgain, hname⟩ := laws.text layer.name
  obtain ⟨kind, hkindAgain, hkind⟩ := laws.choice layer.kind.name
  obtain ⟨input, hinputAgain, hinput⟩ := laws.single (h layer.inputScale (by simp [mandatory]))
  obtain ⟨output, houtputAgain, houtput⟩ := laws.single (h layer.outputScale (by simp [mandatory]))
  obtain ⟨weight, hweightAgain, hweight⟩ := laws.single? layer.weightScale?
    fun x hx => h x (by simp_all [optional])
  obtain ⟨range, hrangeAgain, hrange⟩ := laws.single? layer.outputRange?
    fun x hx => h x (by simp_all [optional])
  refine laws.record keys (layer.nests_toData _) (by decide) rfl
    (.cons hidAgain (.cons hnameAgain (.cons hkindAgain (.cons hinputAgain (.cons houtputAgain
      (.cons hweightAgain (.cons hrangeAgain .nil))))))) fun form hmembers => ?_
  rw [decode?, hmembers]
  simp only [Option.bind_eq_bind, Option.bind_some, hid, hname, hkind, hinput, houtput, hweight,
    hrange, Kind.ofName?_name]
  exact bind_finite fun inputScale outputScale => { layer.finiteOnly with inputScale, outputScale }

/-- An anomaly is read exactly if its numbers are finite. -/
theorem RangeAnomaly.yields {anomaly : RangeAnomaly} (hlayer : anomaly.layer < Nat.pow 2 64)
    (h : ∀ x ∈ anomaly.numbers, x.isFinite = true → encoding.ReadsBack x) :
    encoding.Yields anomaly.toData (decode? encoding)
      (if ∀ x ∈ anomaly.numbers, x.isFinite = true then some anomaly else none) := by
  obtain ⟨layer, hlayerAgain, hlayer⟩ := laws.nat hlayer
  obtain ⟨name, hnameAgain, hname⟩ := laws.text anomaly.name
  obtain ⟨calibrated, hcalibratedAgain, hcalibrated⟩ :=
    laws.single (h anomaly.calibrated (by simp [numbers]))
  obtain ⟨aggregated, haggregatedAgain, haggregated⟩ :=
    laws.single (h anomaly.aggregated (by simp [numbers]))
  refine laws.record keys (anomaly.nests_toData _) (by decide) rfl
    (.cons hlayerAgain (.cons hnameAgain (.cons hcalibratedAgain (.cons haggregatedAgain .nil))))
    fun form hmembers => ?_
  rw [decode?, hmembers]
  simp only [Option.bind_eq_bind, Option.bind_some, hlayer, hname, hcalibrated, haggregated]
  exact bind_finite fun calibrated aggregated => { anomaly with calibrated, aggregated }

/-- A conflict is read exactly if its numbers are finite. -/
theorem ScaleConflict.yields {conflict : ScaleConflict} (hlayer : conflict.layer < Nat.pow 2 64)
    (hinput : conflict.input < Nat.pow 2 64)
    (h : ∀ x ∈ conflict.numbers, x.isFinite = true → encoding.ReadsBack x) :
    encoding.Yields conflict.toData (decode? encoding)
      (if ∀ x ∈ conflict.numbers, x.isFinite = true then some conflict else none) := by
  obtain ⟨layer, hlayerAgain, hlayer⟩ := laws.nat hlayer
  obtain ⟨input, hinputAgain, hinput⟩ := laws.nat hinput
  obtain ⟨required, hrequiredAgain, hrequired⟩ :=
    laws.single (h conflict.required (by simp [numbers]))
  obtain ⟨actual, hactualAgain, hactual⟩ := laws.single (h conflict.actual (by simp [numbers]))
  refine laws.record keys (conflict.nests_toData _) (by decide) rfl
    (.cons hlayerAgain (.cons hinputAgain (.cons hrequiredAgain (.cons hactualAgain .nil))))
    fun form hmembers => ?_
  rw [decode?, hmembers]
  simp only [Option.bind_eq_bind, Option.bind_some, hlayer, hinput, hrequired, hactual]
  exact bind_finite fun required actual => { conflict with required, actual }

end Parts

/-! ## Reports -/

namespace Report

/-- The numbers of a report that must be there. -/
def mandatory (report : Report) : List Single :=
  report.layers.flatMap (·.mandatory) ++ report.anomalies.flatMap (·.numbers) ++
    report.conflicts.flatMap (·.numbers)

/-- The numbers of a report that are there but may be missing. -/
def optional (report : Report) : List Single := report.layers.flatMap (·.optional)

/-- The report without the numbers that may be missing and are not finite. -/
def finiteOnly (report : Report) : Report :=
  { report with layers := report.layers.map (·.finiteOnly) }

/-- The whole numbers of a report are below `2 ^ 64`. -/
structure Fits (report : Report) : Prop where
  layers : ∀ layer ∈ report.layers, layer.id < Nat.pow 2 64
  seededLayers : report.seededLayers < Nat.pow 2 64
  propagationSteps : report.propagationSteps < Nat.pow 2 64
  restarts : report.restarts < Nat.pow 2 64
  anomalies : ∀ anomaly ∈ report.anomalies, anomaly.layer < Nat.pow 2 64
  conflicts : ∀ conflict ∈ report.conflicts,
    conflict.layer < Nat.pow 2 64 ∧ conflict.input < Nat.pow 2 64

variable {report : Report}

/-- What holds of the numbers that must be there holds of those of each part. -/
theorem forall_mandatory {p : Single → Prop} :
    (∀ x ∈ report.mandatory, p x) ↔
      (∀ layer ∈ report.layers, ∀ x ∈ layer.mandatory, p x) ∧
        (∀ anomaly ∈ report.anomalies, ∀ x ∈ anomaly.numbers, p x) ∧
        ∀ conflict ∈ report.conflicts, ∀ x ∈ conflict.numbers, p x := by
  simp only [mandatory, List.forall_mem_append, List.mem_flatMap, forall_exists_index, and_imp,
    and_assoc]
  exact ⟨fun ⟨hlayers, hanomalies, hconflicts⟩ => ⟨fun layer hlayer x => hlayers x layer hlayer,
      fun anomaly hanomaly x => hanomalies x anomaly hanomaly,
      fun conflict hconflict x => hconflicts x conflict hconflict⟩,
    fun ⟨hlayers, hanomalies, hconflicts⟩ => ⟨fun x layer hlayer => hlayers layer hlayer x,
      fun x anomaly hanomaly => hanomalies anomaly hanomaly x,
      fun x conflict hconflict => hconflicts conflict hconflict x⟩⟩

theorem forall_optional {p : Single → Prop} :
    (∀ x ∈ report.optional, p x) ↔ ∀ layer ∈ report.layers, ∀ x ∈ layer.optional, p x := by
  simp only [optional, List.mem_flatMap, forall_exists_index, and_imp]
  exact ⟨fun h layer hlayer x => h x layer hlayer, fun h x layer hlayer => h layer hlayer x⟩

theorem nests_toData (report : Report) (depth : Nat) : report.toData.Nests (depth + 3) := by
  simp [toData, Data.Nests, LayerScales.nests_toData, RangeAnomaly.nests_toData,
    ScaleConflict.nests_toData]

/-- A report is read exactly if the numbers that must be there are finite. -/
theorem yields {encoding : Encoding} (laws : encoding.Laws) (hfits : report.Fits)
    (h : ∀ x ∈ report.mandatory ++ report.optional, x.isFinite = true → encoding.ReadsBack x) :
    encoding.Yields report.toData (decode? encoding)
      (if ∀ x ∈ report.mandatory, x.isFinite = true then some report.finiteOnly else none) := by
  obtain ⟨hmandatory, hoptional⟩ := List.forall_mem_append.1 h
  obtain ⟨hlayers, hanomalies, hconflicts⟩ := forall_mandatory.1 hmandatory
  obtain ⟨layers, hlayersAgain, hlayers⟩ : encoding.Yields (.items (report.layers.map (·.toData)))
      (encoding.toList? (LayerScales.decode? encoding))
      (if ∀ layer ∈ report.layers, ∀ x ∈ layer.mandatory, x.isFinite = true then
        some (report.layers.map (·.finiteOnly)) else none) := by
    refine laws.list (by simp [Data.Nests, Data.depthLimit, LayerScales.nests_toData])
      fun layer hlayer => LayerScales.yields laws (hfits.layers layer hlayer) ?_
    exact List.forall_mem_append.2
      ⟨hlayers layer hlayer, forall_optional.1 hoptional layer hlayer⟩
  obtain ⟨anomalies, hanomaliesAgain, hanomalies⟩ :
      encoding.Yields (.items (report.anomalies.map (·.toData)))
        (encoding.toList? (RangeAnomaly.decode? encoding))
        (if ∀ anomaly ∈ report.anomalies, ∀ x ∈ anomaly.numbers, x.isFinite = true then
          some (report.anomalies.map id) else none) :=
    laws.list (by simp [Data.Nests, Data.depthLimit, RangeAnomaly.nests_toData])
      fun anomaly hanomaly => RangeAnomaly.yields laws (hfits.anomalies anomaly hanomaly)
        (hanomalies anomaly hanomaly)
  obtain ⟨conflicts, hconflictsAgain, hconflicts⟩ :
      encoding.Yields (.items (report.conflicts.map (·.toData)))
        (encoding.toList? (ScaleConflict.decode? encoding))
        (if ∀ conflict ∈ report.conflicts, ∀ x ∈ conflict.numbers, x.isFinite = true then
          some (report.conflicts.map id) else none) :=
    laws.list (by simp [Data.Nests, Data.depthLimit, ScaleConflict.nests_toData])
      fun conflict hconflict => ScaleConflict.yields laws (hfits.conflicts conflict hconflict).1
        (hfits.conflicts conflict hconflict).2 (hconflicts conflict hconflict)
  obtain ⟨calibrated, hcalibratedAgain, hcalibrated⟩ := laws.bool report.calibrated
  obtain ⟨seeded, hseededAgain, hseeded⟩ := laws.nat hfits.seededLayers
  obtain ⟨steps, hstepsAgain, hsteps⟩ := laws.nat hfits.propagationSteps
  obtain ⟨restarts, hrestartsAgain, hrestarts⟩ := laws.nat hfits.restarts
  refine laws.record keys (report.nests_toData _) (by decide) rfl
    (.cons hlayersAgain (.cons hcalibratedAgain (.cons hseededAgain (.cons hstepsAgain
      (.cons hrestartsAgain (.cons hanomaliesAgain (.cons hconflictsAgain .nil)))))))
    fun form hmembers => ?_
  rw [decode?, hmembers]
  simp only [Option.bind_eq_bind, Option.bind_some, hlayers, hcalibrated, hseeded, hsteps,
    hrestarts, hanomalies, hconflicts, List.map_id, bind_ite, ← ite_and, forall_mandatory]
  rfl

/-- Every report is printed, and it is read again exactly if the numbers that must be there are
finite. -/
theorem exists_print {encoding : Encoding} (laws : encoding.Laws) (hfits : report.Fits)
    (h : ∀ x ∈ report.mandatory ++ report.optional, x.isFinite = true → encoding.ReadsBack x) :
    ∃ text, report.print encoding = .ok text ∧ read? encoding text =
      if ∀ x ∈ report.mandatory, x.isFinite = true then some report.finiteOnly else none := by
  obtain ⟨again, ⟨text, hprint, hparse⟩, hread⟩ := yields laws hfits h
  refine ⟨text, ?_, ?_⟩
  · rw [print, hprint]
    rfl
  · rw [read?, hparse]
    exact hread

/-! ## Equality of reports -/

theorem sameNumber_self {x : Single} (h : x.isFinite = true) : x.sameNumber x = true := by
  cases x with
  | nan => cases h
  | number negative magnitude => simp [Binary.sameNumber]

theorem sameNumber?_self {x? : Option Single} (h : ∀ x ∈ x?.toList, x.isFinite = true) :
    sameNumber? x? x? = true := by
  cases x? with
  | none => rfl
  | some x => exact sameNumber_self (h x (List.mem_singleton_self x))

/-- A number that was dropped does not agree with a missing one. -/
theorem isFinite_of_sameNumber? {x? : Option Single}
    (h : sameNumber? (x?.filter (·.isFinite)) x? = true) : ∀ x ∈ x?.toList, x.isFinite = true := by
  cases x? with
  | none => nofun
  | some x =>
      intro y hy
      obtain rfl := List.mem_singleton.1 hy
      cases hfinite : y.isFinite with
      | true => rfl
      | false => simp [Option.filter, hfinite, sameNumber?] at h

theorem filter_finite {x? : Option Single} (h : ∀ x ∈ x?.toList, x.isFinite = true) :
    x?.filter (·.isFinite) = x? := by
  cases x? with
  | none => rfl
  | some x => simp [Option.filter, h x (List.mem_singleton_self x)]

/-- Lists made of one another agree if each item agrees with what it was made of. -/
theorem agreesAll_map {α : Type} (agree : α → α → Bool) (f : α → α) (items : List α) :
    agreesAll agree (items.map f) items = items.all fun item => agree (f item) item := by
  have hzip : (items.map f).zip items = items.map fun item => (f item, item) := by
    induction items with
    | nil => rfl
    | cons item rest ih => rw [List.map_cons, List.zip_cons_cons, ih, List.map_cons]
  simp [agreesAll, hzip, List.all_map, Function.comp_def]

/-- A report whose numbers are all finite loses none of them. -/
theorem finiteOnly_eq (h : ∀ x ∈ report.optional, x.isFinite = true) :
    report.finiteOnly = report := by
  have hlayers : report.layers.map (·.finiteOnly) = report.layers.map id := by
    refine List.map_congr_left fun layer hlayer => ?_
    have hmay := forall_optional.1 h layer hlayer
    simp only [LayerScales.optional, List.forall_mem_append] at hmay
    rw [LayerScales.finiteOnly, filter_finite hmay.1, filter_finite hmay.2]
    rfl
  rw [finiteOnly, hlayers, List.map_id]

/-- A report that has lost a number does not agree with what it was. -/
theorem isFinite_of_agrees (h : report.finiteOnly.agrees report = true) :
    ∀ x ∈ report.optional, x.isFinite = true := by
  have hlayers : agreesAll agreesLayer report.finiteOnly.layers report.layers = true := by
    simp only [agrees, Bool.and_eq_true] at h
    exact h.1.1.1.1.1.1
  rw [finiteOnly, agreesAll_map, List.all_eq_true] at hlayers
  refine forall_optional.2 fun layer hlayer => ?_
  have hagrees := hlayers layer hlayer
  simp only [agreesLayer, Bool.and_eq_true] at hagrees
  obtain ⟨⟨-, hweight⟩, hrange⟩ := hagrees
  exact List.forall_mem_append.2 ⟨isFinite_of_sameNumber? hweight, isFinite_of_sameNumber? hrange⟩

theorem agrees_self (h : ∀ x ∈ report.mandatory ++ report.optional, x.isFinite = true) :
    report.agrees report = true := by
  obtain ⟨hmandatory, hoptional⟩ := List.forall_mem_append.1 h
  obtain ⟨hlayers, hanomalies, hconflicts⟩ := forall_mandatory.1 hmandatory
  have hself : ∀ {α : Type} (agree : α → α → Bool) (items : List α),
      (∀ item ∈ items, agree item item = true) → agreesAll agree items items = true := by
    intro α agree items hitems
    have hmap := agreesAll_map agree id items
    rw [List.map_id] at hmap
    rw [hmap]
    exact List.all_eq_true.2 hitems
  have hlayers : agreesAll agreesLayer report.layers report.layers = true := by
    refine hself _ _ fun layer hlayer => ?_
    have hmust := hlayers layer hlayer
    have hmay := forall_optional.1 hoptional layer hlayer
    simp only [LayerScales.mandatory, LayerScales.optional, List.forall_mem_append,
      List.forall_mem_cons] at hmust hmay
    simp [agreesLayer, sameNumber_self hmust.1, sameNumber_self hmust.2.1,
      sameNumber?_self hmay.1, sameNumber?_self hmay.2]
  have hanomalies : agreesAll agreesAnomaly report.anomalies report.anomalies = true := by
    refine hself _ _ fun anomaly hanomaly => ?_
    have hmust := hanomalies anomaly hanomaly
    simp only [RangeAnomaly.numbers, List.forall_mem_cons] at hmust
    simp [agreesAnomaly, sameNumber_self hmust.1, sameNumber_self hmust.2.1]
  have hconflicts : agreesAll agreesConflict report.conflicts report.conflicts = true := by
    refine hself _ _ fun conflict hconflict => ?_
    have hmust := hconflicts conflict hconflict
    simp only [ScaleConflict.numbers, List.forall_mem_cons] at hmust
    simp [agreesConflict, sameNumber_self hmust.1, sameNumber_self hmust.2.1]
  simp [agrees, hlayers, hanomalies, hconflicts]

/-- A report is printed by every encoding with the laws. Its text is read as an equal report exactly
if all numbers of the report are finite, and then as the report itself. It is refused exactly if a
number that must be there is not finite. Otherwise it is read as the report without the numbers that
are not finite. The whole numbers of the report are taken to fit 64 bits, and its finite numbers to
be read back from what is printed for them. -/
theorem print_comes_back {encoding : Encoding} (laws : encoding.Laws) (hfits : report.Fits)
    (h : ∀ x ∈ report.mandatory ++ report.optional, x.isFinite = true → encoding.ReadsBack x) :
    ∃ text, report.print encoding = .ok text ∧
      ((∃ again, read? encoding text = some again ∧ again.agrees report = true) ↔
        ∀ x ∈ report.mandatory ++ report.optional, x.isFinite = true) ∧
      ((∀ x ∈ report.mandatory ++ report.optional, x.isFinite = true) →
        read? encoding text = some report) ∧
      (read? encoding text = none ↔ ∃ x ∈ report.mandatory, x.isFinite = false) ∧
      ((∀ x ∈ report.mandatory, x.isFinite = true) →
        read? encoding text = some report.finiteOnly) := by
  obtain ⟨text, hprint, htext⟩ := exists_print laws hfits h
  have hall : (∀ x ∈ report.mandatory ++ report.optional, x.isFinite = true) →
      read? encoding text = some report := by
    intro hfinite
    obtain ⟨hmandatory, hoptional⟩ := List.forall_mem_append.1 hfinite
    rw [htext, if_pos hmandatory, finiteOnly_eq hoptional]
  refine ⟨text, hprint, ⟨?_, fun hfinite => ⟨report, hall hfinite, agrees_self hfinite⟩⟩, hall, ?_,
    ?_⟩
  · rintro ⟨again, hread, hagrees⟩
    rw [htext] at hread
    split at hread
    · rename_i hmandatory
      cases hread
      exact List.forall_mem_append.2 ⟨hmandatory, isFinite_of_agrees hagrees⟩
    · cases hread
  · rw [htext]
    split
    · rename_i hmandatory
      simpa using hmandatory
    · rename_i hmandatory
      simpa using hmandatory
  · intro hmandatory
    rw [htext, if_pos hmandatory]

/-- The report on a layer whose weight scale has overflowed, with an anomaly and a conflict. Its
finite numbers are one, a tenth, the largest finite number and the smallest positive one. -/
def overflowedReport : Report :=
  let one : Single := .ofNat .single 1
  let tenth : Single := .ofDecimal .single false 1 (-1)
  let largest : Single := .number false ⟨Format.single.infinity - 1, Nat.sub_le ..⟩
  let smallest : Single := .number false ⟨1, by decide⟩
  { layers := [⟨1, "a \"b\"\n", .affine, one, tenth, some .infinity, some largest⟩]
    calibrated := true
    seededLayers := 1
    anomalies := [⟨1, "a \"b\"\n", tenth, one⟩]
    conflicts := [⟨1, 0, smallest, -one⟩] }

theorem overflowed_comes_back_without :
    Encoding.json.Laws ∧ overflowedReport.Fits ∧
      (∀ x ∈ overflowedReport.mandatory ++ overflowedReport.optional,
        x.isFinite = true → Encoding.json.ReadsBack x) ∧
      ∃ text, overflowedReport.print .json = .ok text ∧
        read? .json text = some overflowedReport.finiteOnly ∧
        (overflowedReport.finiteOnly.layers.map (·.weightScale?)) = [none] ∧
        ¬∃ again, read? .json text = some again ∧ again.agrees overflowedReport = true := by
  have hfits : overflowedReport.Fits := by
    constructor <;> decide +kernel
  have hback : ∀ x ∈ overflowedReport.mandatory ++ overflowedReport.optional,
      x.isFinite = true → Encoding.json.ReadsBack x := by
    decide +kernel
  obtain ⟨text, hprint, hequal, -, -, hread⟩ := print_comes_back Json.laws hfits hback
  refine ⟨Json.laws, hfits, hback, text, hprint, hread (by decide +kernel), by decide +kernel,
    fun hagain => ?_⟩
  exact absurd (hequal.1 hagain) (by decide +kernel)

end Report

end LayerQuant
