import LayerQuant.Pipeline.Quantizer
import LayerQuant.Proofs.SeededRanges

/-!
# Calibration is joined by name

Of a store a quantization sees the ranges at the names of the network's layers and nothing else, so
two stores that agree on these (`Store.AgreesOn`) lead to the same result: see
`quantize_joins_by_name`. Where a layer stands in the store, what else is there, and all other
statistics do not matter.
-/

namespace LayerQuant

namespace Binary

variable {f : Format} {a b c d : Binary f}

/-- The same datum or the same number. The two zeros are alike. -/
def Alike (a b : Binary f) : Prop := a = b ∨ a.sameNumber b = true

/-- Data that are alike have the same magnitude. -/
theorem Alike.abs_eq (h : a.Alike b) : a.abs = b.abs := by
  rcases h with rfl | hsame
  · rfl
  · cases a with
    | nan => cases hsame
    | number negative m =>
        cases b with
        | nan => cases hsame
        | number negative' m' =>
            have hposition : position negative m = position negative' m' := by
              simpa [sameNumber] using hsame
            have hordinal : m.ordinal = m'.ordinal := by
              unfold position signed at hposition
              split at hposition <;> split at hposition <;> omega
            exact congrArg (number false) (Magnitude.eq_of_ordinal hordinal)

/-- Data that are alike compare alike. -/
theorem Alike.le (h : a.Alike b) (h' : c.Alike d) (hle : a ≤ c) : b ≤ d := by
  have hleft : b ≤ a := by
    rcases h with rfl | hsame
    · exact le_refl_of_number (number_of_le_left hle)
    · exact (sameNumber_iff.1 hsame).2
  have hright : c ≤ d := by
    rcases h' with rfl | hsame
    · exact le_refl_of_number (number_of_le_right hle)
    · exact (sameNumber_iff.1 hsame).1
  exact le_trans' (le_trans' hleft hle) hright

theorem Alike.symm (h : a.Alike b) : b.Alike a :=
  h.imp Eq.symm fun hsame => sameNumber_iff.2 (sameNumber_iff.1 hsame).symm

end Binary

open Binary

namespace Record

variable {record other : Record}

/-- The records have the same extrema. -/
structure SameExtrema (record other : Record) : Prop where
  minimum : record.minimum.Alike other.minimum
  maximum : record.maximum.Alike other.maximum

theorem SameExtrema.isTaken_eq (h : record.SameExtrema other) :
    record.isTaken = other.isTaken := by
  rw [Bool.eq_iff_iff, ← record.not_le_iff_isTaken, ← other.not_le_iff_isTaken]
  exact not_congr ⟨h.maximum.le h.minimum, h.maximum.symm.le h.minimum.symm⟩

theorem SameExtrema.largestMagnitude_eq (h : record.SameExtrema other) :
    record.largestMagnitude = other.largestMagnitude := by
  unfold largestMagnitude
  rw [h.minimum.abs_eq, h.maximum.abs_eq]

/-- The name of a record with its extrema. -/
def extent (record : Record) : String × Single × Single :=
  (record.name, record.minimum, record.maximum)

end Record

namespace Store

variable {one other : Store} {name : String}

/-- The stores agree on a name: both have it or neither does, and the output records with this name
have the same extrema in both. -/
structure AgreesOn (one other : Store) (name : String) : Prop where
  stored_iff : (∃ record ∈ one.outputs, record.name = trimName name) ↔
    ∃ record ∈ other.outputs, record.name = trimName name
  extrema : ∀ record ∈ one.outputs, ∀ record' ∈ other.outputs, record.name = trimName name →
    record'.name = trimName name → record.SameExtrema record'

/-- A record is found under a name if and only if the name is stored. -/
theorem outputNamed?_isSome (store : Store) (name : String) :
    (store.outputNamed? name).isSome ↔ ∃ record ∈ store.outputs, record.name = trimName name := by
  unfold outputNamed?
  rw [List.find?_isSome]
  simp only [beq_iff_eq]

/-- Stores that agree on a name have the same range for it. -/
theorem AgreesOn.outputRange?_eq (h : one.AgreesOn other name) :
    one.outputRange? name = other.outputRange? name := by
  have hstored := h.stored_iff
  rw [← outputNamed?_isSome, ← outputNamed?_isSome] at hstored
  rw [Store.outputRange?_eq, Store.outputRange?_eq]
  cases hone : one.outputNamed? name with
  | none =>
      cases hother : other.outputNamed? name with
      | none => rfl
      | some record => simp [hone, hother] at hstored
  | some record =>
      cases hother : other.outputNamed? name with
      | none => simp [hone, hother] at hstored
      | some record' =>
          have hname : record.name = trimName name := by simpa using List.find?_some hone
          have hname' : record'.name = trimName name := by simpa using List.find?_some hother
          have hsame := h.extrema record (List.mem_of_find?_eq_some hone) record'
            (List.mem_of_find?_eq_some hother) hname hname'
          simp [Option.filter, hsame.isTaken_eq, hsame.largestMagnitude_eq, apply_ite]

/-- Stores with the same names and extrema in any order agree on every name, if no name is there
twice. -/
theorem agreesOn_of_perm (hnodup : (one.outputs.map (·.name)).Nodup)
    (hperm : (one.outputs.map Record.extent).Perm (other.outputs.map Record.extent))
    (name : String) : one.AgreesOn other name := by
  have hleft : ∀ record ∈ one.outputs, ∃ twin ∈ other.outputs, twin.extent = record.extent :=
    fun record hrecord =>
      List.mem_map.1 (hperm.mem_iff.1 (List.mem_map_of_mem (f := Record.extent) hrecord))
  have hright : ∀ record ∈ other.outputs, ∃ twin ∈ one.outputs, twin.extent = record.extent :=
    fun record hrecord =>
      List.mem_map.1 (hperm.mem_iff.2 (List.mem_map_of_mem (f := Record.extent) hrecord))
  refine ⟨⟨?_, ?_⟩, ?_⟩
  · rintro ⟨record, hrecord, hname⟩
    obtain ⟨twin, htwin, hextent⟩ := hleft record hrecord
    exact ⟨twin, htwin, (congrArg Prod.fst hextent).trans hname⟩
  · rintro ⟨record, hrecord, hname⟩
    obtain ⟨twin, htwin, hextent⟩ := hright record hrecord
    exact ⟨twin, htwin, (congrArg Prod.fst hextent).trans hname⟩
  · intro record hrecord record' hrecord' hname hname'
    obtain ⟨twin, htwin, hextent⟩ := hright record' hrecord'
    have htwinName : twin.name = record.name :=
      (congrArg Prod.fst hextent).trans (hname'.trans hname.symm)
    obtain rfl := List.inj_on_of_nodup_map hnodup htwin hrecord htwinName
    exact ⟨Or.inl (congrArg (·.2.1) hextent), Or.inl (congrArg (·.2.2) hextent)⟩

end Store

/-! ## From the store to the result -/

variable {one other : Store}

/-- Seeding sees of a store the ranges at the names of the layers. -/
theorem EdgeTable.seedLayers_congr {layers : List Layer}
    (h : ∀ layer ∈ layers, one.outputRange? layer.name = other.outputRange? layer.name)
    (seeded : Nat) (table : EdgeTable) :
    seedLayers one layers seeded table = seedLayers other layers seeded table := by
  induction layers generalizing seeded table with
  | nil => rfl
  | cons layer rest ih =>
      have hrest := ih fun later hlater => h later (List.mem_cons_of_mem _ hlater)
      unfold seedLayers
      rw [h layer List.mem_cons_self]
      simp only [hrest]

/-- A quantization sees of a store what seeding sees of it. -/
theorem Config.quantizeFinal_congr {network : Network}
    (h : ∀ layer ∈ network.layers.toList,
      one.outputRange? layer.name = other.outputRange? layer.name)
    (config : Config) (scales : List Single) :
    config.quantizeFinal network scales (some one) =
      config.quantizeFinal network scales (some other) := by
  have hcalibrate : ∀ table : EdgeTable,
      table.calibrate config network one = table.calibrate config network other := by
    intro table
    unfold EdgeTable.calibrate EdgeTable.seed
    rw [EdgeTable.seedLayers_congr h]
  unfold quantizeFinal
  simp only [hcalibrate, Option.isSome_some]

/-- Two stores that agree on the names of a network's layers lead to the same result and leave the
quantizer the same, whether the quantization succeeds or fails. In particular this holds of stores
whose layers, without a name there twice, have the same names and output extrema in any order,
whatever else is recorded. -/
theorem Quantizer.quantize_joins_by_name (quantizer : Quantizer) (network : Network)
    (scales : List Single) :
    (∀ one other : Store, (∀ layer ∈ network.layers.toList, one.AgreesOn other layer.name) →
      quantizer.quantizeWithStats network scales (some one) =
        quantizer.quantizeWithStats network scales (some other)) ∧
    (∀ one other : Store, (one.outputs.map (·.name)).Nodup →
      (one.outputs.map Record.extent).Perm (other.outputs.map Record.extent) →
      quantizer.quantizeWithStats network scales (some one) =
        quantizer.quantizeWithStats network scales (some other)) := by
  have hagree : ∀ one other : Store,
      (∀ layer ∈ network.layers.toList, one.AgreesOn other layer.name) →
      quantizer.quantizeWithStats network scales (some one) =
        quantizer.quantizeWithStats network scales (some other) := by
    intro one other h
    have hfinal := quantizer.config.quantizeFinal_congr
      (fun layer hlayer => (h layer hlayer).outputRange?_eq) scales
    unfold quantizeWithStats Config.quantize noRevision
    simp only [hfinal]
  refine ⟨hagree, fun one other hnodup hperm => ?_⟩
  exact hagree one other fun layer _ => Store.agreesOn_of_perm hnodup hperm layer.name

/-- An activation of an input, and a copy of it. -/
def activated : Network where
  layers := #[{ id := 0, name := "in", kind := .input },
    { id := 1, name := "active", kind := .activation, inputs := [0] },
    { id := 2, name := "copy", kind := .copy, inputs := [1] }]
  inputs := [0]

theorem activated_built : activated.Built := by
  have hinput : Network.addInput {} "in" =
      .ok (⟨#[{ id := 0, name := "in", kind := .input }], [0]⟩, 0) := by cbv
  have hactive : Network.addLayer ⟨#[{ id := 0, name := "in", kind := .input }], [0]⟩ "active"
      .activation [0] = .ok (⟨#[{ id := 0, name := "in", kind := .input },
        { id := 1, name := "active", kind := .activation, inputs := [0] }], [0]⟩, 1) := by cbv
  have hcopy : Network.addLayer ⟨#[{ id := 0, name := "in", kind := .input },
      { id := 1, name := "active", kind := .activation, inputs := [0] }], [0]⟩ "copy" .copy [1] =
        .ok (activated, 2) := by cbv
  exact .addLayer (.addLayer (.addInput .empty hinput) hactive) hcopy

/-- A store with the activation in front, which is at least zero and at most the given number. -/
def leading (maximum : Nat) : Store where
  layers := #[{ output := { minimum := .zero, maximum := .ofNat .single maximum, name := "active" } },
    { output := { name := "out" } }]

/-- A store with the activation last and with other counts and sums. -/
def trailing : Store where
  layers := #[{ output := { name := "out", sum := .nan } },
    { input := { minimum := .nan }
      output := { minimum := .zero, maximum := .ofNat .single 3, count := 7, name := "active" } }]

/-- A store of another size with the other zero as the minimum. -/
def shifted : Store where
  layers := #[{}, {},
    { output := { minimum := -.zero, maximum := .ofNat .single 3, name := "active" } }]

/-- Quantizes `activated` with its input at scale one. -/
def quantizeActivated (store : Store) : Except Error Quantized :=
  (Quantizer.quantizeWithStats { config := {} } activated [.ofNat .single 1] (some store)).2

/-- The activation takes its scale from the maximum stored for it. -/
theorem quantizeActivated_leading : ∃ quantized other,
    quantizeActivated (leading 3) = .ok quantized ∧ quantizeActivated (leading 5) = .ok other ∧
      quantized.report.seededLayers = 1 ∧
      (quantized.table.get 1).output.scale = .ofNat .single 8192 ∧
      (other.table.get 1).output.scale = .ofRatio .single false 32768 7 := by
  have hthree : (quantizeActivated (leading 3)).toOption.map (fun quantized =>
      (quantized.report.seededLayers, (quantized.table.get 1).output.scale)) =
        some (1, .ofNat .single 8192) := by
    simp only [quantizeActivated, Quantizer.quantizeWithStats, Config.quantize,
      Quantizer.noRevision, Config.quantizeFinal, Config.sweepPlan,
      activated_built.wellFormed.topologicalOrder_eq]
    decide +kernel
  have hfive : (quantizeActivated (leading 5)).toOption.map (fun quantized =>
      (quantized.table.get 1).output.scale) = some (.ofRatio .single false 32768 7) := by
    simp only [quantizeActivated, Quantizer.quantizeWithStats, Config.quantize,
      Quantizer.noRevision, Config.quantizeFinal, Config.sweepPlan,
      activated_built.wellFormed.topologicalOrder_eq]
    decide +kernel
  cases hquantized : quantizeActivated (leading 3) with
  | error error => simp [hquantized, Except.toOption] at hthree
  | ok quantized =>
      cases hother : quantizeActivated (leading 5) with
      | error error => simp [hother, Except.toOption] at hfive
      | ok other =>
          simp only [hquantized, hother, Except.toOption, Option.map_some, Option.some.injEq,
            Prod.mk.injEq] at hthree hfive
          exact ⟨quantized, other, rfl, rfl, hthree.1, hthree.2, hfive⟩

/-- Neither the place in a store nor the size of the store matters, but the maximum does. -/
theorem leading_joined : ∃ quantized other,
    quantizeActivated (leading 3) = .ok quantized ∧ quantized.report.seededLayers = 1 ∧
      quantizeActivated shifted = .ok quantized ∧ quantizeActivated trailing = .ok quantized ∧
      quantizeActivated (leading 5) = .ok other ∧
      (other.table.get 1).output.scale ≠ (quantized.table.get 1).output.scale := by
  obtain ⟨hagree, hperm⟩ :=
    Quantizer.quantize_joins_by_name { config := {} } activated [.ofNat .single 1]
  have hshifted : ∀ layer ∈ activated.layers.toList, (leading 3).AgreesOn shifted layer.name := by
    have hnames : ∀ layer ∈ activated.layers.toList,
        (∃ record ∈ (leading 3).outputs, record.name = trimName layer.name) ↔
          ∃ record ∈ shifted.outputs, record.name = trimName layer.name := by decide +kernel
    have hmaxima : ∀ layer ∈ activated.layers.toList, ∀ record ∈ (leading 3).outputs,
        ∀ record' ∈ shifted.outputs, record.name = trimName layer.name →
          record'.name = trimName layer.name → record.maximum = record'.maximum := by
      decide +kernel
    have hminima : ∀ layer ∈ activated.layers.toList, ∀ record ∈ (leading 3).outputs,
        ∀ record' ∈ shifted.outputs, record.name = trimName layer.name →
          record'.name = trimName layer.name →
            record.minimum.sameNumber record'.minimum = true := by
      decide +kernel
    intro layer hlayer
    refine ⟨hnames layer hlayer, fun record hrecord record' hrecord' hname hname' => ?_⟩
    exact ⟨.inr (hminima layer hlayer record hrecord record' hrecord' hname hname'),
      .inl (hmaxima layer hlayer record hrecord record' hrecord' hname hname')⟩
  obtain ⟨quantized, other, hquantized, hother, hseeded, hscale, hscale'⟩ :=
    quantizeActivated_leading
  refine ⟨quantized, other, hquantized, hseeded, ?_, ?_, hother, ?_⟩
  · exact (congrArg Prod.snd (hagree (leading 3) shifted hshifted)).symm.trans hquantized
  · have htrailing := hperm (leading 3) trailing (by decide) (.swap ..)
    exact (congrArg Prod.snd htrailing).symm.trans hquantized
  · rw [hscale, hscale']
    decide +kernel

end LayerQuant
