import LayerQuant.Calibration.Store
import LayerQuant.Proofs.TextFields

/-!
# Names in stores

A snapshot has room for a name that fills the rest of one line, and names are trimmed when they are
read. `IsStoredName` says which names fit, and `Store.Collected.hasStoredNames` that all names fit in
a store that was filled by updates and by names without line feeds. Read `IsStoredName` and
`Store.Collected` first.
-/

namespace LayerQuant

/-- Nothing is trimmed from the name and it is on one line. -/
structure IsStoredName (name : String) : Prop where
  trimmed : trimName name = name
  oneLine : '\n' ∉ name.toList

/-- The characters of a trimmed name. -/
theorem toList_trimName (name : String) :
    (trimName name).toList = Text.trimBy isNameBlank name.toList := String.toList_ofList

/-- Trimming a name once is enough. -/
theorem trimName_trimName (name : String) : trimName (trimName name) = trimName name := by
  apply String.toList_injective
  rw [toList_trimName, toList_trimName, Text.trimBy_trimBy]

/-- A trimmed name stays as it is, and what was on one line is still on one line. -/
theorem isStoredName_trimName {name : String} (h : '\n' ∉ name.toList) :
    IsStoredName (trimName name) := by
  refine ⟨trimName_trimName name, ?_⟩
  rw [toList_trimName]
  exact fun hmem => h (Text.trimBy_subset _ _ hmem)

/-- The name of a new record. -/
theorem isStoredName_empty : IsStoredName "" := ⟨rfl, by decide⟩

/-- A stored name does not end with a blank of names. -/
theorem IsStoredName.getLast? {name : String} (h : IsStoredName name) {c : Char}
    (hlast : name.toList.getLast? = some c) : isNameBlank c = false := by
  have htrimmed := congrArg String.toList h.trimmed
  rw [toList_trimName, Text.trimBy_eq_self, List.rdropWhile_eq_self_iff] at htrimmed
  have hnonempty : name.toList ≠ [] := by
    intro hnil
    rw [hnil] at hlast
    cases hlast
  rw [List.getLast?_eq_some_getLast hnonempty] at hlast
  cases hlast
  exact Bool.eq_false_iff.2 (htrimmed.2 hnonempty)

namespace Store

variable {store changed : Store}

/-- A record of the store belongs to one of its layers. -/
theorem record_eq_ok {layer : Nat} {role : Role} {record : Record} :
    store.record layer role = .ok record ↔
      ∃ statistics, store.layers[layer]? = some statistics ∧ statistics.get role = record := by
  unfold Store.record
  split
  · rename_i statistics hstatistics
    rw [hstatistics]
    constructor
    · intro h
      exact ⟨statistics, rfl, Except.ok.inj h⟩
    · rintro ⟨_, hsome, rfl⟩
      cases hsome
      rfl
  · rename_i hnone
    rw [hnone]
    constructor
    · intro h
      cases h
    · rintro ⟨_, hsome, _⟩
      cases hsome

/-- All names of the store fit a snapshot. -/
def HasStoredNames (store : Store) : Prop :=
  ∀ layer role record, store.record layer role = .ok record → IsStoredName record.name

/-- The names of a store are those in the records of its layers. -/
theorem hasStoredNames_iff : store.HasStoredNames ↔
    ∀ statistics ∈ store.layers.toList, ∀ role : Role, IsStoredName (statistics.get role).name := by
  constructor
  · intro h statistics hmem role
    obtain ⟨layer, hlayer⟩ := List.mem_iff_getElem?.1 hmem
    rw [Array.getElem?_toList] at hlayer
    exact h layer role _ (record_eq_ok.2 ⟨statistics, hlayer, rfl⟩)
  · intro h layer role record hrecord
    obtain ⟨statistics, hlayer, rfl⟩ := record_eq_ok.1 hrecord
    exact h statistics (Array.mem_toList_iff.2 (Array.mem_of_getElem? hlayer)) role

/-- The store was filled by updates and by names without line feeds. -/
inductive Collected : Store → Prop where
  | empty (count : Nat) : Collected (.empty count)
  | update {store changed : Store} {layer : Nat} {role : Role} {samples : List Single} :
      Collected store → store.update layer role samples = .ok changed → Collected changed
  | setName {store changed : Store} {layer : Nat} {name : String} :
      Collected store → '\n' ∉ name.toList → store.setName layer name = .ok changed →
      Collected changed

/-- A change of a record keeps the size of the store. -/
theorem size_modify {layer : Nat} {role : Role} {change : Record → Record}
    (h : store.modify layer role change = .ok changed) : changed.size = store.size := by
  unfold Store.modify at h
  split at h
  · cases h
    exact Array.size_modify
  · cases h

/-- A record of a changed store was there before, or the change was applied to it. -/
theorem record_modify {layer other : Nat} {role otherRole : Role} {change : Record → Record}
    {record : Record} (h : store.modify layer role change = .ok changed)
    (hrecord : changed.record other otherRole = .ok record) :
    ∃ before, store.record other otherRole = .ok before ∧
      (record = before ∨ otherRole = role ∧ record = change before) := by
  unfold Store.modify at h
  split at h
  · cases h
    obtain ⟨statistics, hstatistics, rfl⟩ := record_eq_ok.1 hrecord
    rw [Array.getElem?_modify] at hstatistics
    split at hstatistics
    · obtain ⟨before, hbefore, rfl⟩ := Option.map_eq_some_iff.1 hstatistics
      refine ⟨_, record_eq_ok.2 ⟨before, hbefore, rfl⟩, ?_⟩
      by_cases hrole : otherRole = role
      · rw [hrole, LayerStatistics.get_modify_self]
        exact Or.inr ⟨rfl, rfl⟩
      · exact Or.inl (LayerStatistics.get_modify_of_ne before hrole change)
    · exact ⟨_, record_eq_ok.2 ⟨statistics, hstatistics, rfl⟩, Or.inl rfl⟩
  · cases h

/-- A change that gives records a name that fits keeps the names of a store. -/
theorem HasStoredNames.modify (h : store.HasStoredNames) {layer : Nat} {role : Role}
    {change : Record → Record} (hmodify : store.modify layer role change = .ok changed)
    (hchange : ∀ record : Record, IsStoredName record.name → IsStoredName (change record).name) :
    changed.HasStoredNames := by
  intro other otherRole record hrecord
  obtain ⟨before, hbefore, rfl | ⟨_, rfl⟩⟩ := record_modify hmodify hrecord
  · exact h other otherRole _ hbefore
  · exact hchange before (h other otherRole _ hbefore)

/-- All names of a store that was filled by updates and by names without line feeds fit. -/
theorem Collected.hasStoredNames (h : store.Collected) : store.HasStoredNames := by
  induction h with
  | empty count =>
    rw [hasStoredNames_iff]
    intro statistics hmem role
    have hnew : statistics = {} := Array.eq_of_mem_replicate (Array.mem_toList_iff.1 hmem)
    rw [hnew]
    cases role <;> exact isStoredName_empty
  | update hbefore hupdate ih =>
    refine ih.modify hupdate ?_
    intro record hname
    rw [Record.name_fold]
    exact hname
  | setName hbefore hname hset ih =>
    refine ih.modify hset ?_
    intro record _
    exact isStoredName_trimName hname

end Store

end LayerQuant
