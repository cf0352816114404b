import LayerQuant.Proofs.RecordedSamples
import LayerQuant.Proofs.TopologicalOrder
import LayerQuant.Proofs.Unsigned
import LayerQuant.Proofs.Visit
import LayerQuant.Range.Seed

/-!
# Ranges taken from calibration

Seeding looks at the output record of the first layer with the right name and takes its range unless
the maximum is at most the minimum. A record without a range in the sense of `Record.hasRange` is
passed over, except for one with an extremum that is not a number, since nothing is at most such a
datum. Samples never bring one into a record, but a snapshot may hold it: see `seed_takes_ranges`
and `blurred_seeded`.
-/

namespace LayerQuant

open Binary

/-- Of two data without a sign the larger one does not depend on their order. -/
theorem Binary.maximum_comm {f : Format} {a b : Binary f} (ha : a.Unsigned) (hb : b.Unsigned) :
    a.maximum b = b.maximum a := by
  cases hnan : a.isNaN with
  | true => cases a <;> cases b <;> first | rfl | cases hnan
  | false =>
      cases hnan' : b.isNaN with
      | true => cases b <;> cases a <;> first | rfl | cases hnan'
      | false =>
          obtain ⟨m, rfl⟩ := ha.exists_number hnan
          obtain ⟨m', rfl⟩ := hb.exists_number hnan'
          show (if _ then _ else _) = if _ then _ else _
          simp only [number_false_lt]
          rcases Nat.lt_trichotomy m.ordinal m'.ordinal with hlt | heq | hlt
          · rw [if_neg (Nat.lt_asymm hlt), if_pos hlt]
          · rw [Magnitude.eq_of_ordinal heq]
          · rw [if_pos hlt, if_neg (Nat.lt_asymm hlt)]

/-! ## The two tests of a range -/

namespace Record

/-- Whether an extremum is not a number, so that the extrema do not compare. -/
def isUnordered (record : Record) : Bool := record.minimum.isNaN || record.maximum.isNaN

/-- Whether seeding takes the range of the record. -/
def isTaken (record : Record) : Bool := record.hasRange || record.isUnordered

/-- The maximum fails to be at most the minimum for two reasons. -/
theorem not_le_iff_isTaken (record : Record) :
    ¬ record.maximum ≤ record.minimum ↔ record.isTaken = true := by
  unfold isTaken hasRange isUnordered
  simp only [Bool.or_eq_true, decide_eq_true_eq]
  constructor
  · intro hnot
    cases hminimum : record.minimum.isNaN with
    | true => simp
    | false =>
        cases hmaximum : record.maximum.isNaN with
        | true => simp
        | false => exact Or.inl (lt_of_not_le' hmaximum hminimum hnot)
  · rintro (hlt | hminimum | hmaximum) hle
    · exact not_lt_of_le' hle hlt
    · simp [number_of_le_right hle] at hminimum
    · simp [number_of_le_left hle] at hmaximum

/-- The tests agree on records whose extrema are numbers. -/
theorem isTaken_of_ordered {record : Record} (h : record.isUnordered = false) :
    record.isTaken = record.hasRange := by
  rw [isTaken, h, Bool.or_false]

/-- The larger magnitude is a number as soon as one of the extrema is. -/
theorem isNaN_largestMagnitude (record : Record) :
    record.largestMagnitude.isNaN = (record.minimum.isNaN && record.maximum.isNaN) := by
  unfold largestMagnitude
  cases record.minimum with
  | nan => cases record.maximum <;> rfl
  | number negative m =>
      cases record.maximum with
      | nan => rfl
      | number negative' m' =>
          show ((number false m').maximum (number false m)).isNaN = false
          rcases maximum_cases (number false m') (number false m) with h | h <;> rw [h] <;> rfl

/-- The magnitudes of the extrema may be compared in either order. -/
theorem maximum_abs_comm (record : Record) :
    record.minimum.abs.maximum record.maximum.abs = record.largestMagnitude :=
  maximum_comm unsigned_abs unsigned_abs

end Record

namespace Store

variable {store : Store}

/-- The output records of the layers in order. -/
def outputs (store : Store) : List Record := store.layers.toList.map (·.output)

/-- The output record of the first layer with the given name, compared after trimming. -/
def outputNamed? (store : Store) (name : String) : Option Record :=
  store.outputs.find? (·.name == trimName name)

/-- The range that calibration saw is that of the first record with the name, if it is taken. -/
theorem outputRange?_eq (store : Store) (name : String) :
    store.outputRange? name =
      ((store.outputNamed? name).filter Record.isTaken).map Record.largestMagnitude := by
  have hfind : store.outputNamed? name =
      (store.find? name).bind fun layer => (store.layers[layer]?).map (·.output) := by
    unfold outputNamed? outputs find?
    rw [List.find?_map, Array.find?_toList, Array.find?_eq_bind_findIdx?_getElem?, Option.map_bind]
    rfl
  show ((store.find? name).bind fun layer => ((store.layers[layer]?).map (·.output)).bind _) = _
  rw [← Option.bind_assoc, ← hfind]
  cases store.outputNamed? name with
  | none => rfl
  | some record =>
      rw [Option.bind_some]
      by_cases hle : record.maximum ≤ record.minimum
      · have hpassed : record.isTaken = false := by
          rw [← Bool.not_eq_true, ← record.not_le_iff_isTaken]
          exact not_not.2 hle
        rw [if_pos hle, Option.filter_some_neg (by simp [hpassed])]
        rfl
      · rw [if_neg hle, Option.filter_some_pos (record.not_le_iff_isTaken.1 hle),
          record.maximum_abs_comm]
        rfl

end Store

/-! ## Seeding -/

/-- The entry with the given range at its output, if there is one. -/
def LayerEdges.withRange (edges : LayerEdges) (range? : Option Single) : LayerEdges :=
  { edges with output := { edges.output with range? := range?.or edges.output.range? } }

namespace EdgeTable

variable {store : Store} {table : EdgeTable} {layers : List Layer} {layer : Layer}

theorem seedLayers_size (store : Store) (layers : List Layer) (seeded : Nat)
    (table : EdgeTable) : (seedLayers store layers seeded table).1.size = table.size := by
  induction layers generalizing seeded table with
  | nil => rfl
  | cons layer rest ih =>
      unfold seedLayers
      split
      · exact ih seeded table
      · split
        · exact (ih _ _).trans (size_modify _ _ _)
        · rfl

/-- Seeding the first layer of a list that has an entry, then the others. -/
theorem seedLayers_cons (hentry : layer.id < table.size) (seeded : Nat) :
    seedLayers store (layer :: layers) seeded table =
      seedLayers store layers (seeded + if (store.outputRange? layer.name).isSome then 1 else 0)
        (table.modify layer.id (·.withRange (store.outputRange? layer.name))) := by
  rw [seedLayers]
  cases store.outputRange? layer.name with
  | none =>
      rw [modify_of_eq rfl]
      rfl
  | some range =>
      dsimp only
      rw [if_pos hentry]
      rfl

/-- If all layers have entries, seeding counts the layers that have a range. -/
theorem seedLayers_count (hentries : ∀ layer ∈ layers, layer.id < table.size) (seeded : Nat) :
    (seedLayers store layers seeded table).2 =
      .ok (seeded + layers.countP fun layer => (store.outputRange? layer.name).isSome) := by
  induction layers generalizing seeded table with
  | nil => rfl
  | cons layer rest ih =>
      rw [seedLayers_cons (hentries layer List.mem_cons_self), ih, List.countP_cons]
      · congr 1
        omega
      · intro other hother
        rw [size_modify]
        exact hentries other (List.mem_cons_of_mem _ hother)

/-- Seeding leaves the entries of other layers alone. -/
theorem seedLayers_of_not_mem {id : Nat} (hentries : ∀ layer ∈ layers, layer.id < table.size)
    (hid : ∀ layer ∈ layers, layer.id ≠ id) (seeded : Nat) :
    (seedLayers store layers seeded table).1.get id = table.get id := by
  induction layers generalizing seeded table with
  | nil => rfl
  | cons layer rest ih =>
      rw [seedLayers_cons (hentries layer List.mem_cons_self), ih]
      · exact get_modify_of_ne (hid layer List.mem_cons_self).symm _
      · intro other hother
        rw [size_modify]
        exact hentries other (List.mem_cons_of_mem _ hother)
      · exact fun other hother => hid other (List.mem_cons_of_mem _ hother)

/-- Seeding gives the output of every layer its range, if it has one, and changes nothing else. -/
theorem seedLayers_of_mem (hentries : ∀ layer ∈ layers, layer.id < table.size)
    (hnodup : (layers.map (·.id)).Nodup) (hlayer : layer ∈ layers) (seeded : Nat) :
    (seedLayers store layers seeded table).1.get layer.id =
      (table.get layer.id).withRange (store.outputRange? layer.name) := by
  induction layers generalizing seeded table with
  | nil => cases hlayer
  | cons first rest ih =>
      have hfirst := hentries first List.mem_cons_self
      have hrest : ∀ other ∈ rest, other.id < (table.modify first.id
          (·.withRange (store.outputRange? first.name))).size := by
        intro other hother
        rw [size_modify]
        exact hentries other (List.mem_cons_of_mem _ hother)
      rw [List.map_cons, List.nodup_cons] at hnodup
      have hother : ∀ other ∈ rest, other.id ≠ first.id := fun other hother heq =>
        hnodup.1 (heq ▸ List.mem_map_of_mem hother)
      rw [seedLayers_cons hfirst]
      rcases List.mem_cons.1 hlayer with rfl | hlayer
      · rw [seedLayers_of_not_mem hrest hother, get_modify_self hfirst]
      · rw [ih hrest hnodup.2 hlayer, get_modify_of_ne (hother layer hlayer)]

/-- The layers of a network have entries in a table of its size. -/
theorem lt_size_of_mem {network : Network} (hnetwork : network.WellFormed)
    (htable : network.size ≤ table.size) : ∀ layer ∈ network.layers.toList, layer.id < table.size :=
  fun _ hlayer => (Network.lt_size (hnetwork.layer?_id hlayer)).trans_le htable

/-- Seeding a table from the store gives the layers of a network their ranges. -/
theorem seed_of_mem {network : Network} (hnetwork : network.WellFormed)
    (htable : network.size ≤ table.size) (hlayer : layer ∈ network.layers.toList) :
    (table.seed network store).1.get layer.id =
      (table.get layer.id).withRange (store.outputRange? layer.name) := by
  refine seedLayers_of_mem (lt_size_of_mem hnetwork htable) ?_ hlayer 0
  rw [hnetwork.map_id]
  exact List.nodup_range

/-- Seeding a table from the store succeeds. Of the layers of the network it counts those for which
the test picks the first output record with their name, and at their outputs it sets the larger
magnitude of the extrema of that record. Nothing else of the table changes. -/
structure TakesRanges (picks : Record → Bool) (network : Network) (store : Store)
    (table : EdgeTable) : Prop where
  size_eq : (table.seed network store).1.size = table.size
  count_eq : (table.seed network store).2 =
    .ok (network.layers.toList.countP fun layer => (store.outputNamed? layer.name).any picks)
  taken : ∀ {layer record}, layer ∈ network.layers.toList →
    store.outputNamed? layer.name = some record → picks record = true →
    (table.seed network store).1.get layer.id =
      { table.get layer.id with
        output := (table.get layer.id).output.setRange record.largestMagnitude }
  passed : ∀ {layer}, layer ∈ network.layers.toList →
    (∀ record, store.outputNamed? layer.name = some record → picks record = false) →
    (table.seed network store).1.get layer.id = table.get layer.id
  beyond : ∀ {id}, network.size ≤ id →
    (table.seed network store).1.get id = table.get id

/-- Seeding takes the ranges that `Record.isTaken` picks. -/
theorem takesRanges_isTaken {network : Network} (hnetwork : network.WellFormed)
    (htable : network.size ≤ table.size) (store : Store) :
    table.TakesRanges Record.isTaken network store := by
  have hentries := lt_size_of_mem hnetwork htable
  refine ⟨seedLayers_size .., ?_, fun hlayer hrecord hpicks => ?_,
    fun {layer} hlayer hpassed => ?_, fun hid => ?_⟩
  · rw [seed, seedLayers_count hentries, Nat.zero_add]
    congr 2
    funext layer
    rw [store.outputRange?_eq]
    cases store.outputNamed? layer.name with
    | none => rfl
    | some record => cases hpicks : record.isTaken <;> simp [Option.filter, hpicks]
  · rw [seed_of_mem hnetwork htable hlayer, store.outputRange?_eq, hrecord,
      Option.filter_some_pos hpicks]
    rfl
  · have hnone : store.outputRange? layer.name = none := by
      rw [store.outputRange?_eq]
      cases hrecord : store.outputNamed? layer.name with
      | none => rfl
      | some record => simp [Option.filter, hpassed record hrecord]
    rw [seed_of_mem hnetwork htable hlayer, hnone]
    rfl
  · refine seedLayers_of_not_mem hentries (fun layer hlayer heq => ?_) 0
    exact absurd (Network.lt_size (hnetwork.layer?_id hlayer)) (by omega)

/-- A test that agrees on the output records of the store takes the same ranges. -/
theorem TakesRanges.congr {picks picks' : Record → Bool} {network : Network}
    (h : table.TakesRanges picks network store)
    (hpicks : ∀ record ∈ store.outputs, picks record = picks' record) :
    table.TakesRanges picks' network store := by
  have hnamed : ∀ {name record}, store.outputNamed? name = some record →
      picks record = picks' record := fun hrecord => hpicks _ (List.mem_of_find?_eq_some hrecord)
  refine ⟨h.size_eq, ?_, fun hlayer hrecord hpicks' => ?_, fun hlayer hpassed => ?_, h.beyond⟩
  · rw [h.count_eq]
    congr 2
    funext layer
    cases hrecord : store.outputNamed? layer.name with
    | none => rfl
    | some record => exact hnamed hrecord
  · exact h.taken hlayer hrecord ((hnamed hrecord).trans hpicks')
  · exact h.passed hlayer fun record hrecord =>
      (hnamed hrecord).trans (hpassed record hrecord)

end EdgeTable

/-- The extrema of the output records are numbers after any calls on a fresh store. -/
theorem Store.Fresh.isUnordered_outputs {store : Store} (h : store.Fresh)
    (calls : List Session.Call) :
    ∀ record ∈ (store.afterCalls calls).outputs, record.isUnordered = false := by
  intro record hrecord
  obtain ⟨statistics, hmem, rfl⟩ := List.mem_map.1 hrecord
  obtain ⟨layer, hlayer⟩ := List.mem_iff_getElem?.1 hmem
  rw [Array.getElem?_toList] at hlayer
  have hsummary := h.summarizes.afterCalls calls layer .output _
    (Store.record_eq_ok.2 ⟨statistics, hlayer, rfl⟩)
  exact Bool.or_eq_false_iff.2 ⟨hsummary.minimum_number, hsummary.maximum_number⟩

/-- Seeding succeeds if every layer has an entry. It takes the range of the first output record with
the name of a layer if the maximum is above the minimum, or else if one of them is not a number. If
all extrema in the store are numbers, as they are after any calls on a fresh store, it takes exactly
the ranges that the records hold. A range that a record holds is a number, and of the other ones
that are taken those are not whose extrema are both not numbers. -/
theorem EdgeTable.seed_takes_ranges {network : Network} {table : EdgeTable}
    (hnetwork : network.Built) (htable : network.size ≤ table.size) :
    (∀ store, table.TakesRanges Record.isTaken network store) ∧
      (∀ store, (∀ record ∈ Store.outputs store, record.isUnordered = false) →
        table.TakesRanges Record.hasRange network store) ∧
      (∀ (store : Store) calls, store.Fresh →
        table.TakesRanges Record.hasRange network (store.afterCalls calls)) ∧
      ∀ record : Record,
        (record.hasRange = true → record.largestMagnitude.isNaN = false) ∧
        (record.isUnordered = true → (record.largestMagnitude.isNaN = true ↔
          record.minimum.isNaN = true ∧ record.maximum.isNaN = true)) := by
  have htaken := takesRanges_isTaken hnetwork.wellFormed htable
  refine ⟨htaken, fun store hordered => ?_, fun store calls hfresh => ?_, fun record => ⟨?_, ?_⟩⟩
  · exact (htaken store).congr fun record hrecord =>
      Record.isTaken_of_ordered (hordered record hrecord)
  · exact (htaken _).congr fun record hrecord =>
      Record.isTaken_of_ordered (hfresh.isUnordered_outputs calls record hrecord)
  · intro hrange
    have hnumber := number_of_lt_left (of_decide_eq_true hrange)
    rw [record.isNaN_largestMagnitude, hnumber, Bool.false_and]
  · intro _
    rw [record.isNaN_largestMagnitude, Bool.and_eq_true]

/-- A network that is nothing but an input. -/
def lone : Network := ⟨#[{ id := 0, name := "in", kind := .input }], [0]⟩

theorem lone_built : lone.Built := by
  have hinput : Network.addInput {} "in" = .ok (lone, 0) := by cbv
  exact .addInput .empty hinput

/-- Calls that name the second of two layers and give it two samples. -/
def namingCalls : List Session.Call :=
  [.setName 1 " in", .update 1 .output [.ofNat .single 1, -.ofNat .single 2]]

/-- The larger magnitude of the samples becomes the range of the input. -/
theorem lone_takes_range :
    (((EdgeTable.empty 1).seed lone ((Store.empty 2).afterCalls namingCalls)).1.get 0).output =
      { range? := some (.ofNat .single 2) } := by
  have hsize : lone.size ≤ (EdgeTable.empty 1).size := by decide
  obtain ⟨_, _, hcalls, _⟩ := EdgeTable.seed_takes_ranges lone_built hsize
  have htakes := hcalls (.empty 2) namingCalls (.empty 2)
  have hfound : (((Store.empty 2).afterCalls namingCalls).outputNamed? "in").map
      (fun record => (record.hasRange, record.largestMagnitude)) =
        some (true, .ofNat .single 2) := by decide +kernel
  obtain ⟨record, hrecord, hpair⟩ := Option.map_eq_some_iff.1 hfound
  obtain ⟨hrange, hmagnitude⟩ := Prod.mk.inj hpair
  have hlayer : { id := 0, name := "in", kind := .input } ∈ lone.layers.toList := by decide
  have hentry := htakes.taken hlayer hrecord hrange
  rw [hmagnitude] at hentry
  exact congrArg LayerEdges.output hentry

/-- A store whose only output record has extrema that are not numbers. -/
def blurred : Store := ⟨#[{ output := { minimum := .nan, maximum := .nan, name := "in" } }]⟩

/-- A record without a range may be taken: from a snapshot whose extrema are not numbers, the input
gets a range that is not a number either. -/
theorem blurred_seeded :
    lone.Built ∧ Snapshot.read (Snapshot.write blurred).toUTF8 = .ok blurred.reread ∧
      (blurred.reread.outputNamed? "in").map Record.hasRange = some false ∧
      ((EdgeTable.empty 1).seed lone blurred.reread).2 = .ok 1 ∧
      (((EdgeTable.empty 1).seed lone blurred.reread).1.get 0).output.range? = some .nan := by
  have hnames : blurred.HasStoredNames := by
    rw [Store.hasStoredNames_iff]
    intro statistics hmem role
    obtain rfl := List.mem_singleton.1 hmem
    cases role
    case output => exact ⟨rfl, by decide⟩
    all_goals exact isStoredName_empty
  refine ⟨lone_built, Snapshot.read_write_eq (by decide) (by decide) hnames, ?_, ?_, ?_⟩
  · decide +kernel
  · have hsize : lone.size ≤ (EdgeTable.empty 1).size := by decide
    rw [(EdgeTable.takesRanges_isTaken lone_built.wellFormed hsize _).count_eq]
    exact congrArg Except.ok (by decide +kernel)
  · decide +kernel

end LayerQuant
