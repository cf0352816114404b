import LayerQuant.Proofs.SnapshotLine
import LayerQuant.Proofs.TextLines

/-!
# Snapshots come back

A store that is written and read again comes back with the numbers of its decimals and is written to
the same text (`read_write`). The records of a snapshot stand in the order of `Store.rows`, layer by
layer, so reading is followed over the layers (`readRecords_rows`). Read `Record.ReadsBack` and
`read_write` first.
-/

namespace LayerQuant

namespace LayerStatistics

/-- The records of a layer in the order of a snapshot. -/
def records (statistics : LayerStatistics) : List Record := Role.all.map statistics.get

/-- The layer that is read for another one, which was written to a snapshot. -/
def reread (statistics : LayerStatistics) : LayerStatistics :=
  ⟨statistics.input.reread, statistics.output.reread, statistics.weight.reread,
    statistics.bias.reread⟩

theorem get_reread (statistics : LayerStatistics) (role : Role) :
    statistics.reread.get role = (statistics.get role).reread := by
  cases role <;> rfl

end LayerStatistics

namespace Store

/-- The store that is read for another one, which was written to a snapshot. -/
def reread (store : Store) : Store := ⟨store.layers.map LayerStatistics.reread⟩

/-- The rows of layers that stand at positions from `first` on. -/
def rowsFrom (first : Nat) (layers : List LayerStatistics) : List (Nat × Role × Record) :=
  (layers.zipIdx first).flatMap fun (statistics, layer) =>
    Role.all.map fun role => (layer, role, statistics.get role)

theorem rows_eq (store : Store) : store.rows = rowsFrom 0 store.layers.toList := rfl

theorem rowsFrom_cons (first : Nat) (statistics : LayerStatistics) (later : List LayerStatistics) :
    rowsFrom first (statistics :: later) =
      Role.all.map (fun role => (first, role, statistics.get role)) ++ rowsFrom (first + 1) later := by
  unfold rowsFrom
  rw [List.zipIdx_cons, List.flatMap_cons]

/-- A row holds a record of a layer. -/
theorem mem_rowsFrom {first : Nat} {layers : List LayerStatistics} {row : Nat × Role × Record}
    (h : row ∈ rowsFrom first layers) :
    ∃ statistics role, statistics ∈ layers ∧ statistics.get role = row.2.2 := by
  obtain ⟨⟨statistics, layer⟩, hlayer, hrow⟩ := List.mem_flatMap.1 h
  obtain ⟨role, _, rfl⟩ := List.mem_map.1 hrow
  exact ⟨statistics, role, List.fst_mem_of_mem_zipIdx hlayer, rfl⟩

/-- The rows of the layers that come back hold the records that come back. -/
theorem rowsFrom_reread (first : Nat) (layers : List LayerStatistics) :
    rowsFrom first (layers.map LayerStatistics.reread) =
      (rowsFrom first layers).map fun (layer, role, record) => (layer, role, record.reread) := by
  induction layers generalizing first with
  | nil => rfl
  | cons statistics later ih =>
    rw [List.map_cons, rowsFrom_cons, rowsFrom_cons, List.map_append, ih, List.map_map]
    simp only [LayerStatistics.get_reread, Function.comp_def]

theorem size_reread (store : Store) : store.reread.size = store.size := Array.size_map

/-- Every record of a store comes back at its place, and no others do. -/
theorem record_reread_eq (store : Store) (layer : Nat) (role : Role) :
    store.reread.record layer role = (store.record layer role).map Record.reread := by
  have hsize := size_reread store
  unfold Store.record
  unfold reread at hsize ⊢
  rw [hsize, Array.getElem?_map]
  cases store.layers[layer]? with
  | none => rfl
  | some statistics => exact congrArg Except.ok (LayerStatistics.get_reread statistics role)

theorem record_reread {store : Store} {layer : Nat} {role : Role} {record : Record}
    (h : store.record layer role = .ok record) :
    store.reread.record layer role = .ok record.reread := by
  rw [record_reread_eq, h]
  rfl

end Store

namespace Snapshot

/-! ## Writing -/

/-- The header of a snapshot. -/
def headerLine (count : Nat) : String := magic ++ " " ++ toString count

/-- The lines of a snapshot. -/
def textLines (store : Store) : List String :=
  headerLine store.size :: store.rows.map fun (layer, role, record) => line layer role record

/-- A snapshot is written line by line. -/
theorem write_eq (store : Store) : write store = String.join ((textLines store).map (· ++ "\n")) := by
  apply String.toList_injective
  simp [write, textLines, headerLine, String.toList_join, Function.comp_def, List.flatMap_map]

/-- The store that comes back is written to the same text. -/
theorem write_reread (store : Store) : write store.reread = write store := by
  have hrows : store.reread.rows =
      store.rows.map fun (layer, role, record) => (layer, role, record.reread) := by
    rw [Store.rows_eq, Store.rows_eq, ← Store.rowsFrom_reread, Store.reread, Array.toList_map]
  rw [write_eq, write_eq]
  unfold textLines
  rw [Store.size_reread, hrows, List.map_map]
  simp only [Function.comp_def, line_reread]

/-! ## Reading -/

/-- What a header announces, by its characters. -/
theorem layerCount_eq_ok {header : String} {count : Nat} : layerCount header = .ok count ↔
    ∃ number, header.toList = (magic ++ " ").toList ++ number ∧
      Text.natural? (Text.trimBy Text.isBlank number) = some count ∧
      0 < count ∧ Role.all.length * count < Nat.pow 2 64 := by
  unfold layerCount
  dsimp only
  constructor
  · intro h
    split at h
    · rename_i hopening
      obtain ⟨number, hnumber⟩ := List.isPrefixOf_iff_prefix.1 hopening
      rw [← hnumber, List.drop_left] at h
      split at h
      · rename_i found hfound
        split at h
        · rename_i hbounds
          cases h
          exact ⟨number, hnumber.symm, hfound, hbounds⟩
        · cases h
      · cases h
    · cases h
  · rintro ⟨number, hnumber, hcount, hbounds⟩
    rw [hnumber, if_pos (List.isPrefixOf_iff_prefix.2 (List.prefix_append _ _)), List.drop_left,
      hcount]
    exact if_pos hbounds

/-- The header of a snapshot announces its layers. -/
theorem layerCount_headerLine {count : Nat} (hpositive : 0 < count)
    (hbound : Role.all.length * count < Nat.pow 2 64) :
    layerCount (headerLine count) = .ok count := by
  have htrim : Text.trimBy Text.isBlank (toString count).toList = (toString count).toList :=
    Text.trimBy_of_forall fun _ hc => Text.isBlank_of_isDigit (Text.isDigit_of_mem_toString hc)
  have hcount : count < Nat.pow 2 64 := by
    have hfour : 4 * count < Nat.pow 2 64 := hbound
    omega
  refine layerCount_eq_ok.2 ⟨(toString count).toList, String.toList_append, ?_, hpositive, hbound⟩
  rw [htrim, Text.natural?_toString hcount]

/-- The layer whose record stands at a position. -/
def layerAt (position : Nat) : Nat := position / Role.all.length

/-- The role of the record at a position. -/
def roleAt (position : Nat) : Role := Role.all.getD (position % Role.all.length) .input

/-- A line at its position is read, and then those after it. -/
theorem readRecords_some {expected position : Nat} (hlt : position < expected) (text : String)
    (rest : List (Option String)) :
    readRecords expected position (some text :: rest) =
      readRecord (position + 2) (layerAt position) (roleAt position) text >>= fun record =>
        (readRecords expected (position + 1) rest).map (record :: ·) := by
  rw [readRecords, if_neg (Nat.not_le.2 hlt)]
  show (readRecord (position + 2) _ _ text >>= fun record =>
    readRecords expected (position + 1) rest >>= fun later => pure (record :: later)) = _
  congr 1

/-- The record at its place is read from its line, and the other ones from the lines after it. -/
theorem readRecords_cons {expected position : Nat} {text : String} {record : Record}
    {rest : List (Option String)} {later : List Record} (hlt : position < expected)
    (hread : LineRead (layerAt position) (roleAt position) text record)
    (hrest : readRecords expected (position + 1) rest = .ok later) :
    readRecords expected position (some text :: rest) = .ok (record :: later) := by
  rw [readRecords_some hlt, readRecord_eq_ok.2 hread, hrest]
  rfl

/-- The lines of a layer are read as the records that come back, if the lines after them are. -/
theorem readRecords_layer {expected first : Nat} {statistics : LayerStatistics}
    {rest : List (Option String)} {later : List Record}
    (hbound : expected < Nat.pow 2 64) (hlt : Role.all.length * first + 3 < expected)
    (hnames : ∀ role : Role, IsStoredName (statistics.get role).name)
    (hrest : readRecords expected (Role.all.length * (first + 1)) rest = .ok later) :
    readRecords expected (Role.all.length * first)
        (Role.all.map (fun role => some (line first role (statistics.get role))) ++ rest) =
      .ok (statistics.reread.records ++ later) := by
  have hlayer : first < Nat.pow 2 64 := by
    have hfour : 4 * first + 3 < expected := hlt
    omega
  -- The four lines stand at the positions of their roles.
  have hplace : ∀ role : Role, 4 * first + role.index < expected ∧
      layerAt (4 * first + role.index) = first ∧ roleAt (4 * first + role.index) = role := by
    intro role
    have hfour : 4 * first + 3 < expected := hlt
    have hindex : role.index ≤ 3 := by cases role <;> decide
    have hremainder : (4 * first + role.index) % 4 = role.index := by omega
    refine ⟨by omega, ?_, ?_⟩
    · show (4 * first + role.index) / 4 = first
      omega
    · show Role.all.getD ((4 * first + role.index) % 4) .input = role
      rw [hremainder]
      cases role <;> rfl
  have hcons : ∀ (role : Role) {rest : List (Option String)} {later : List Record},
      readRecords expected (4 * first + role.index + 1) rest = .ok later →
      readRecords expected (4 * first + role.index)
        (some (line first role (statistics.get role)) :: rest) =
          .ok ((statistics.get role).reread :: later) := by
    intro role rest later hrest
    obtain ⟨hposition, hquotient, hrole⟩ := hplace role
    refine readRecords_cons hposition ?_ hrest
    rw [hquotient, hrole]
    exact lineRead_line hlayer role (hnames role)
  exact hcons .input (hcons .output (hcons .weight (hcons .bias hrest)))

/-- The lines of layers are read as the records that come back. -/
theorem readRecords_rows (first : Nat) (layers : List LayerStatistics)
    (hbound : Role.all.length * (first + layers.length) < Nat.pow 2 64)
    (hnames : ∀ statistics ∈ layers, ∀ role : Role, IsStoredName (statistics.get role).name) :
    readRecords (Role.all.length * (first + layers.length)) (Role.all.length * first)
        ((Store.rowsFrom first layers).map fun (layer, role, record) =>
          some (line layer role record)) =
      .ok ((layers.map LayerStatistics.reread).flatMap LayerStatistics.records) := by
  induction layers generalizing first with
  | nil =>
    unfold readRecords
    rw [List.length_nil, Nat.add_zero, if_pos le_rfl]
    rfl
  | cons statistics later ih =>
    have hexpected : first + (statistics :: later).length = first + 1 + later.length := by
      rw [List.length_cons]
      omega
    rw [hexpected] at hbound ⊢
    have hrest := ih (first + 1) hbound
      (fun other hmem => hnames other (List.mem_cons_of_mem _ hmem))
    rw [Store.rowsFrom_cons, List.map_append, List.map_map]
    refine readRecords_layer hbound ?_ (hnames statistics (List.mem_cons_self ..)) hrest
    show 4 * first + 3 < 4 * (first + 1 + later.length)
    omega

/-- Records in the order of a snapshot are grouped to their layers. -/
theorem group_records (layers : List LayerStatistics) :
    group (layers.flatMap LayerStatistics.records) = layers := by
  induction layers with
  | nil => rfl
  | cons statistics later ih =>
    show ⟨_, _, _, _⟩ :: group (later.flatMap LayerStatistics.records) = statistics :: later
    rw [ih]
    rfl

/-- What is no digit and not in the magic word is not in a header. -/
theorem not_mem_headerLine {c : Char} (hdigit : c.isDigit = false)
    (hmagic : c ∉ (magic ++ " ").toList) (count : Nat) : c ∉ (headerLine count).toList := by
  unfold headerLine
  rw [String.toList_append, List.mem_append]
  rintro (hmem | hmem)
  · exact hmagic hmem
  · exact Text.not_mem_toString hdigit count hmem

/-- A row of a store with names that fit has such a name. -/
theorem isStoredName_of_mem_rows {store : Store} (hnames : store.HasStoredNames)
    {row : Nat × Role × Record} (hrow : row ∈ store.rows) : IsStoredName row.2.2.name := by
  rw [Store.rows_eq] at hrow
  obtain ⟨statistics, role, hmem, hrecord⟩ := Store.mem_rowsFrom hrow
  rw [← hrecord]
  exact Store.hasStoredNames_iff.1 hnames statistics hmem role

/-- With names that fit, no line goes on over a line feed. -/
theorem not_mem_textLines {store : Store} (hnames : store.HasStoredNames) :
    ∀ text ∈ textLines store, '\n' ∉ text.toList := by
  intro text htext
  rcases List.mem_cons.1 htext with rfl | htext
  · exact not_mem_headerLine rfl (by decide) store.size
  · obtain ⟨row, hmem, rfl⟩ := List.mem_map.1 htext
    exact not_mem_line row.1 row.2.1 (isStoredName_of_mem_rows hnames hmem)

/-- The lines of a store with names that fit are the lines that are read. -/
theorem lines_write {store : Store} (hnames : store.HasStoredNames) :
    Text.lines (write store).toUTF8 = (textLines store).map some := by
  rw [write_eq]
  refine Text.lines_join _ (not_mem_textLines hnames) ?_
  intro text htext hlast
  rcases List.mem_cons.1 htext with rfl | htext
  · exact not_mem_headerLine rfl (by decide) store.size (List.mem_of_getLast? hlast)
  · obtain ⟨row, hmem, rfl⟩ := List.mem_map.1 htext
    cases last_line (isStoredName_of_mem_rows hnames hmem) hlast

/-- A store with names that fit is read as the store that comes back. -/
theorem read_write_eq {store : Store} (hlayers : 0 < store.size)
    (hbound : Role.all.length * store.size < Nat.pow 2 64) (hnames : store.HasStoredNames) :
    read (write store).toUTF8 = .ok store.reread := by
  have hcount : store.layers.toList.length = store.size := Array.length_toList
  have hrecords := readRecords_rows 0 store.layers.toList
    (by rw [hcount, Nat.zero_add]; exact hbound) (Store.hasStoredNames_iff.1 hnames)
  rw [hcount, Nat.zero_add, Nat.mul_zero, ← Store.rows_eq] at hrecords
  unfold read
  rw [lines_write hnames]
  unfold textLines
  rw [List.map_cons, List.map_map]
  refine bind_eq_ok.2 ⟨headerLine store.size, rfl, ?_⟩
  refine bind_eq_ok.2 ⟨store.size, layerCount_headerLine hlayers hbound, ?_⟩
  refine bind_eq_ok.2 ⟨_, hrecords, ?_⟩
  rw [group_records, ← Array.toList_map]
  rfl

/-! ## What was read -/

/-- A header announces at least one layer, and so many records that 64 bits count them. -/
theorem layerCount_bounds {header : String} {count : Nat} (h : layerCount header = .ok count) :
    0 < count ∧ Role.all.length * count < Nat.pow 2 64 := by
  obtain ⟨_, _, _, hbounds⟩ := layerCount_eq_ok.1 h
  exact hbounds

/-- A record is read for every announced place, and its name fits. -/
theorem readRecords_names {expected position : Nat} {lines : List (Option String)}
    {records : List Record} (hlines : ∀ text, some text ∈ lines → '\n' ∉ text.toList)
    (h : readRecords expected position lines = .ok records) :
    records.length = expected - position ∧ ∀ record ∈ records, IsStoredName record.name := by
  fun_induction readRecords expected position lines generalizing records with
  | case1 position lines hdone =>
    cases h
    exact ⟨(Nat.sub_eq_zero_of_le hdone).symm, fun record hmem => nomatch hmem⟩
  | case2 position hmore => cases h
  | case3 position hmore line rest ih =>
    obtain ⟨text, htext, h⟩ := bind_eq_ok.1 h
    obtain ⟨record, hrecord, h⟩ := bind_eq_ok.1 h
    obtain ⟨later, hlater, h⟩ := bind_eq_ok.1 h
    cases h
    obtain ⟨hlength, hnames⟩ := ih (fun text hmem => hlines text (List.mem_cons_of_mem _ hmem)) hlater
    have hline : line = some text := by
      cases line with
      | none => cases htext
      | some found =>
        cases htext
        rfl
    have hname := (readRecord_eq_ok.1 hrecord).isStoredName
      (hlines text (by rw [hline]; exact List.mem_cons_self ..))
    constructor
    · rw [List.length_cons, hlength]
      omega
    · intro other hmem
      rcases List.mem_cons.1 hmem with rfl | hmem
      · exact hname
      · exact hnames other hmem

/-- The layers of a row of records hold these records. -/
theorem mem_of_mem_group {records : List Record} {statistics : LayerStatistics}
    (h : statistics ∈ group records) (role : Role) : statistics.get role ∈ records := by
  fun_induction group records with
  | case1 input output weight bias rest ih =>
    rcases List.mem_cons.1 h with rfl | hmem
    · cases role <;> simp [LayerStatistics.get]
    · have := ih hmem
      simp [this]
  | case2 => cases h

/-- Four records make a layer. -/
theorem length_group {records : List Record} {count : Nat}
    (h : records.length = Role.all.length * count) : (group records).length = count := by
  replace h : records.length = 4 * count := h
  induction count generalizing records with
  | zero =>
    rw [List.eq_nil_of_length_eq_zero h]
    rfl
  | succ count ih =>
    rcases records with _ | ⟨input, _ | ⟨output, _ | ⟨weight, _ | ⟨bias, rest⟩⟩⟩⟩
    case cons.cons.cons.cons =>
      simp only [List.length_cons] at h
      show (group rest).length + 1 = count + 1
      rw [ih (by omega)]
    all_goals
      simp only [List.length_cons, List.length_nil] at h
      omega

/-- A store that was read has layers, so many that 64 bits count their records, and all its names
fit. -/
theorem names_of_read {content : ByteArray} {store : Store} (h : read content = .ok store) :
    0 < store.size ∧ Role.all.length * store.size < Nat.pow 2 64 ∧ store.HasStoredNames := by
  have hlines : ∀ text, some text ∈ Text.lines content → '\n' ∉ text.toList :=
    fun _ hmem => Text.not_mem_lines hmem
  unfold read ofLines at h
  split at h
  · cases h
  · rename_i header rest hcontent
    obtain ⟨text, htext, h⟩ := bind_eq_ok.1 h
    obtain ⟨count, hcount, h⟩ := bind_eq_ok.1 h
    obtain ⟨records, hrecords, h⟩ := bind_eq_ok.1 h
    cases h
    rw [hcontent] at hlines
    obtain ⟨hlength, hnames⟩ :=
      readRecords_names (fun text hmem => hlines text (List.mem_cons_of_mem _ hmem)) hrecords
    have hsize : (⟨(group records).toArray⟩ : Store).size = count := length_group hlength
    obtain ⟨hpositive, hbound⟩ := layerCount_bounds hcount
    rw [hsize]
    refine ⟨hpositive, hbound, ?_⟩
    rw [Store.hasStoredNames_iff]
    intro statistics hmem role
    exact hnames _ (mem_of_mem_group hmem role)

/-! ## The round trip -/

/-- A store with at least one layer and with names that fit is read again from its own text. Every
record comes back: the numbers as `Binary.ReadsBack` says, the count and the name as they are. The
store that comes back is written to the same text. The number of records has to fit 64 bits, which
holds of every store in memory.

The names fit in every store that was read from a snapshot, which can therefore be written and read
again, and in every store that was filled by updates and by names without line feeds. -/
theorem read_write :
    (∀ store : Store, 0 < store.size → Role.all.length * store.size < Nat.pow 2 64 →
      store.HasStoredNames →
      ∃ again, read (write store).toUTF8 = .ok again ∧ again.size = store.size ∧
        (∀ layer role record, store.record layer role = .ok record →
          ∃ other, again.record layer role = .ok other ∧ record.ReadsBack other) ∧
        write again = write store) ∧
    (∀ content store, read content = .ok store →
      0 < store.size ∧ Role.all.length * store.size < Nat.pow 2 64 ∧ store.HasStoredNames) ∧
    (∀ store : Store, store.Collected → store.HasStoredNames) := by
  refine ⟨?_, fun _ _ => names_of_read, fun _ => Store.Collected.hasStoredNames⟩
  intro store hlayers hbound hnames
  refine ⟨store.reread, read_write_eq hlayers hbound hnames, Store.size_reread store, ?_,
    write_reread store⟩
  intro layer role record hrecord
  exact ⟨record.reread, Store.record_reread hrecord, record.readsBack_reread⟩

/-- A store of one layer whose name has a blank in it. -/
def named : Store := ⟨#[{ output := { name := "conv 1" } }]⟩

theorem named_collected : named.Collected := by
  have hset : (Store.empty 1).setName 0 " conv 1 " = .ok named := rfl
  exact .setName (.empty 1) (by decide) hset

theorem named_comes_back :
    ∃ again, read (write named).toUTF8 = .ok again ∧ again.name 0 = .ok "conv 1" ∧
      write again = write named ∧ again.HasStoredNames := by
  obtain ⟨hwrite, hread, hcollected⟩ := read_write
  obtain ⟨again, hagain, _, hrecords, htext⟩ :=
    hwrite named (by decide) (by decide) (hcollected named named_collected)
  obtain ⟨other, hother, hback⟩ := hrecords 0 .output _ rfl
  refine ⟨again, hagain, ?_, htext, (hread _ _ hagain).2.2⟩
  unfold Store.name
  rw [hother]
  exact congrArg Except.ok hback.name_eq

end Snapshot

end LayerQuant
