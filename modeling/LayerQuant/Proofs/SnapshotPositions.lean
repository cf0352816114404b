import LayerQuant.Proofs.RawLines
import LayerQuant.Proofs.SnapshotRoundTrip

/-!
# Lines of a snapshot are bound to their positions

A data line names the layer and the role of its position, so it is read at that position only
(`LineRead.displaced`), and exactly the announced lines are read, one after the other
(`LinesRead.readRecords_append`). What becomes of a snapshot whose lines are permuted, cut short or
followed by others, or whose header announces another number of layers, follows: see
`read_bound_to_positions`. Two files are compared by their lines in bytes, and line ends drop out
with `Text.stripped`.
-/

namespace LayerQuant

namespace Text

variable {drop : Char → Bool} {text opening ending : List Char}

/-- Trimming drops what is to be dropped at the end of a text. -/
theorem trimBy_append (h : ∀ c ∈ ending, drop c = true) :
    trimBy drop (text ++ ending) = trimBy drop text := by
  rw [trimBy_eq, trimBy_eq, List.dropWhile_append]
  split
  · rename_i hnone
    rw [List.dropWhile_eq_nil_iff.2 h, List.isEmpty_iff.1 hnone]
  · rw [List.rdropWhile, List.reverse_append,
      List.dropWhile_append_of_pos fun c hc => h c (List.mem_reverse.1 hc)]
    rfl

/-- Dropping at the end stops at an opening with nothing to drop at its own end. -/
theorem rdropWhile_append (h : opening.rdropWhile drop = opening) (text : List Char) :
    (opening ++ text).rdropWhile drop = opening ++ text.rdropWhile drop := by
  unfold List.rdropWhile at h ⊢
  rw [List.reverse_append, List.dropWhile_append]
  split
  · rename_i hnone
    rw [h, List.isEmpty_iff.1 hnone, List.reverse_nil, List.append_nil]
  · rw [List.reverse_append, List.reverse_reverse]

/-- Line ends are blank. -/
theorem isBlank_of_isLineEnd {c : Char} (h : isLineEnd c = true) : isBlank c = true := by
  simp only [isLineEnd, Bool.or_eq_true, beq_iff_eq] at h
  rcases h with rfl | rfl <;> decide

end Text

namespace Snapshot

open Text (Consists decode? fileOf isLineEnd stripped)

variable {text other : String} {layer position expected count : Nat} {role : Role} {record : Record}
  {lines used rest : List (Option String)} {records : List Record}

/-! ## Line ends -/

/-- What a header announces does not depend on line ends. -/
theorem layerCount_congr (hsame : stripped text = stripped other) (h : layerCount text = .ok count) :
    layerCount other = .ok count := by
  obtain ⟨number, htext, hcount, hbounds⟩ := layerCount_eq_ok.1 h
  have hopening : (magic ++ " ").toList.rdropWhile isLineEnd = (magic ++ " ").toList := by decide
  have hother : stripped other = (magic ++ " ").toList ++ number.rdropWhile isLineEnd := by
    rw [← hsame, stripped, htext, Text.rdropWhile_append hopening]
  have hblank : ∀ ending : List Char, Text.trimBy Text.isBlank
      (number.rdropWhile isLineEnd ++ ending.rtakeWhile isLineEnd) =
        Text.trimBy Text.isBlank (number.rdropWhile isLineEnd) := fun ending =>
    Text.trimBy_append fun c hc => Text.isBlank_of_isLineEnd (List.mem_rtakeWhile_imp hc)
  refine layerCount_eq_ok.2 ⟨number.rdropWhile isLineEnd ++ other.toList.rtakeWhile isLineEnd,
    ?_, ?_, hbounds⟩
  · rw [← List.append_assoc, ← hother]
    exact List.rdropWhile_append_rtakeWhile.symm
  · rw [hblank, ← hblank number, List.rdropWhile_append_rtakeWhile]
    exact hcount

/-- The record that is read does not depend on line ends. -/
theorem readRecord_congr (h : stripped text = stripped other) (line layer : Nat) (role : Role) :
    readRecord line layer role text = readRecord line layer role other := by
  have hbody : (text.toList.reverse.dropWhile fun c => c == '\r' || c == '\n').reverse =
      (other.toList.reverse.dropWhile fun c => c == '\r' || c == '\n').reverse := h
  unfold readRecord
  rw [hbody]

theorem LineRead.congr (h : LineRead layer role text record) (hsame : stripped text = stripped other) :
    LineRead layer role other record := by
  have hread : readRecord 0 layer role text = .ok record := readRecord_eq_ok.2 h
  rw [readRecord_congr hsame] at hread
  exact readRecord_eq_ok.1 hread

/-! ## Positions -/

theorem index_roleAt (position : Nat) : (roleAt position).index = position % 4 := by
  have hlt : position % 4 < 4 := Nat.mod_lt _ (by decide)
  show (Role.all.getD (position % 4) .input).index = position % 4
  generalize position % 4 = i at hlt
  interval_cases i <;> rfl

/-- Layer and role make the position. -/
theorem position_eq {first second : Nat} (hlayer : layerAt first = layerAt second)
    (hrole : roleAt first = roleAt second) : first = second := by
  have hindex := congrArg Role.index hrole
  rw [index_roleAt, index_roleAt] at hindex
  have hquotient : first / 4 = second / 4 := hlayer
  omega

/-- The error at a position where the line of another position is read: the layer differs, and the
line reads as the other one, or else the role does. -/
def Displaced (position source : Nat) (error : SnapshotError) : Prop :=
  if layerAt source = layerAt position then
    error = .invalidRole (position + 2) (roleAt position) (String.ofList [(roleAt source).tag, ':'])
  else
    ∃ found : String, Text.natural? found.toList = some (layerAt source) ∧
      error = .layerIndexMismatch (position + 2) (layerAt position) found

/-- The layer is checked first. -/
theorem readRecord_of_layer_ne {line : Nat}
    (h : Text.natural? ((lineFields text).getD 0 []) ≠ some layer) :
    readRecord line layer role text =
      .error (.layerIndexMismatch line layer (String.ofList ((lineFields text).getD 0 []))) := by
  unfold readRecord
  exact if_pos h

/-- The role is checked next. -/
theorem readRecord_of_role_ne {line : Nat}
    (hlayer : Text.natural? ((lineFields text).getD 0 []) = some layer)
    (h : (lineFields text).getD 1 [] ≠ [role.tag, ':']) :
    readRecord line layer role text =
      .error (.invalidRole line role (String.ofList ((lineFields text).getD 1 []))) := by
  unfold readRecord
  exact (if_neg (not_not.2 hlayer)).trans (if_pos h)

/-- The line of one position is not read at another one. -/
theorem LineRead.displaced {source : Nat} (hposition : source ≠ position)
    (h : LineRead (layerAt source) (roleAt source) text record) :
    ∃ error, readRecord (position + 2) (layerAt position) (roleAt position) text = .error error ∧
      Displaced position source error := by
  unfold Displaced
  by_cases hlayer : layerAt source = layerAt position
  · have htags : (lineFields text).getD 1 [] ≠ [(roleAt position).tag, ':'] := by
      rw [h.role_eq]
      intro htags
      have htag : (roleAt source).tag = (roleAt position).tag := (List.cons.inj htags).1
      have hrole : roleAt source = roleAt position := by
        rw [← Option.some_inj, ← Role.ofTag?_tag, htag, Role.ofTag?_tag]
      exact hposition (position_eq hlayer hrole)
    refine ⟨_, readRecord_of_role_ne (h.layer_eq.trans (congrArg some hlayer)) htags, ?_⟩
    rw [if_pos hlayer, h.role_eq]
  · have hindex : Text.natural? ((lineFields text).getD 0 []) ≠ some (layerAt position) := by
      rw [h.layer_eq]
      exact fun heq => hlayer (Option.some_inj.1 heq)
    refine ⟨_, readRecord_of_layer_ne hindex, ?_⟩
    rw [if_neg hlayer]
    refine ⟨_, ?_, rfl⟩
    rw [String.toList_ofList]
    exact h.layer_eq

/-! ## Lines that are read in order -/

/-- The lines, which stand at the given position and after it, are read as the records. -/
inductive LinesRead : Nat → List (Option String) → List Record → Prop
  | nil (position : Nat) : LinesRead position [] []
  | cons {position : Nat} {text : String} {record : Record} {rest : List (Option String)}
      {later : List Record} :
      LineRead (layerAt position) (roleAt position) text record →
      LinesRead (position + 1) rest later →
      LinesRead position (some text :: rest) (record :: later)

/-- Nothing is read beyond the announced lines. -/
theorem readRecords_of_le (h : expected ≤ position) (lines : List (Option String)) :
    readRecords expected position lines = .ok [] := by
  unfold readRecords
  exact if_pos h

/-- The file ends before an announced line. -/
theorem readRecords_nil (h : position < expected) :
    readRecords expected position [] = .error (.truncated expected position) := by
  rw [readRecords, if_neg (Nat.not_le.2 h)]

namespace LinesRead

/-- Lines that are read in order give their records, and what follows is read after them. -/
theorem readRecords_append (h : LinesRead position used records)
    (hlength : position + used.length ≤ expected) (rest : List (Option String)) :
    readRecords expected position (used ++ rest) =
      (readRecords expected (position + used.length) rest).map (records ++ ·) := by
  induction h with
  | nil position =>
      show readRecords expected position rest = (readRecords expected (position + 0) rest).map _
      rw [Nat.add_zero]
      cases readRecords expected position rest <;> rfl
  | @cons position text record used later hline _ ih =>
      rw [List.length_cons] at hlength ⊢
      rw [List.cons_append, readRecords_some (by omega), readRecord_eq_ok.2 hline,
        ih (by omega), show position + (used.length + 1) = position + 1 + used.length by omega]
      cases readRecords expected (position + 1 + used.length) rest <;> rfl

theorem length_eq (h : LinesRead position used records) : records.length = used.length := by
  induction h with
  | nil => rfl
  | cons _ _ ih => rw [List.length_cons, List.length_cons, ih]

theorem take (h : LinesRead position used records) (count : Nat) :
    LinesRead position (used.take count) (records.take count) := by
  induction h generalizing count with
  | nil position =>
      rw [List.take_nil, List.take_nil]
      exact .nil position
  | cons hline _ ih =>
      cases count with
      | zero => exact .nil _
      | succ count => exact .cons hline (ih count)

/-- Every line is read at its own position. -/
theorem lineRead (h : LinesRead position used records) {i : Nat} {line : Option String}
    (hline : used[i]? = some line) : ∃ text record, line = some text ∧
      LineRead (layerAt (position + i)) (roleAt (position + i)) text record := by
  induction h generalizing i with
  | nil => cases hline
  | @cons position text record used later hfirst _ ih =>
      cases i with
      | zero =>
          cases hline
          exact ⟨text, record, rfl, hfirst⟩
      | succ i =>
          rw [← Nat.add_assoc, Nat.add_right_comm]
          exact ih hline

/-- Other line ends make no difference. -/
theorem congr (h : LinesRead position used records)
    (hsame : lines.map (·.map stripped) = used.map (·.map stripped)) :
    LinesRead position lines records := by
  induction h generalizing lines with
  | nil position =>
      rw [List.map_eq_nil_iff.1 hsame]
      exact .nil position
  | cons hline _ ih =>
      obtain ⟨line, later, rfl, hfirst, hrest⟩ := List.map_eq_cons_iff.1 hsame
      obtain ⟨text, rfl, htext⟩ := Option.map_eq_some_iff.1 hfirst
      exact .cons (hline.congr htext.symm) (ih hrest)

end LinesRead

/-- When records are read, the lines up to the announced number are read in order. -/
theorem linesRead_of_readRecords (h : readRecords expected position lines = .ok records) :
    LinesRead position (lines.take (expected - position)) records ∧
      records.length = expected - position := by
  fun_induction readRecords expected position lines generalizing records with
  | case1 position lines hdone =>
      cases h
      rw [Nat.sub_eq_zero_of_le hdone]
      exact ⟨.nil position, rfl⟩
  | case2 position hmore => cases h
  | case3 position hmore line rest ih =>
      obtain ⟨text, htext, h⟩ := bind_eq_ok.1 h
      obtain ⟨record, hrecord, h⟩ := bind_eq_ok.1 h
      obtain ⟨later, hlater, h⟩ := bind_eq_ok.1 h
      cases h
      cases line with
      | none => cases htext
      | some found =>
          cases htext
          obtain ⟨hread, hlength⟩ := ih hlater
          have hsucc : expected - position = expected - (position + 1) + 1 := by omega
          rw [hsucc, List.take_succ_cons, List.length_cons, hlength]
          exact ⟨.cons (readRecord_eq_ok.1 hrecord) hread, rfl⟩

/-! ## Files -/

/-- The line is a header that announces so many layers. -/
def Announces (header : List UInt8) (count : Nat) : Prop :=
  ∃ text, decode? header = some text ∧ layerCount text = .ok count

variable {content : ByteArray} {header : List UInt8} {data extra : List (List UInt8)} {store : Store}

/-- The header that is written for a number of layers announces it. -/
theorem announces_headerLine (hpositive : 0 < count)
    (hbound : Role.all.length * count < Nat.pow 2 64) :
    Announces (Text.bytes (headerLine count)) count :=
  ⟨_, Text.fromUTF8?_bytes _, layerCount_headerLine hpositive hbound⟩

/-- A file of such a header and of lines without line feeds. -/
theorem consists_headerLine (count : Nat) (hdata : ∀ line ∈ data, 10 ∉ line) :
    Consists (fileOf (Text.bytes (headerLine count) :: data))
      (Text.bytes (headerLine count) :: data) := by
  refine Text.consists_fileOf fun line hline => ?_
  rcases List.mem_cons.1 hline with rfl | hline
  · exact Text.lineFeed_mem_bytes.not.2 (not_mem_headerLine rfl (by decide) count)
  · exact hdata line hline

/-- A snapshot that is written consists of its lines. -/
theorem consists_write (hnames : store.HasStoredNames) :
    Consists (write store).toUTF8 ((textLines store).map Text.bytes) := by
  rw [write_eq]
  exact Text.consists_join (not_mem_textLines hnames)

/-- A file that begins with lines in order is read up to where they end. -/
theorem read_eq (hcontent : Consists content (header :: (data ++ extra)))
    (hheader : Announces header count) (hdata : LinesRead 0 (data.map decode?) records)
    (hlength : data.length ≤ Role.all.length * count) :
    ∃ later, later.map (·.map stripped) = extra.map (fun line => (decode? line).map stripped) ∧
      read content = (readRecords (Role.all.length * count) data.length later).map
        fun further => ⟨(group (records ++ further)).toArray⟩ := by
  obtain ⟨text, htext, hcount⟩ := hheader
  have hlines := hcontent.lines_stripped
  rw [List.map_cons, List.map_append, htext] at hlines
  obtain ⟨first, rest, hlines, hfirst, hrest⟩ := List.map_eq_cons_iff.1 hlines
  obtain ⟨used, later, rfl, hused, hlater⟩ := List.map_eq_append_iff.1 hrest
  obtain ⟨other, rfl, hother⟩ := Option.map_eq_some_iff.1 hfirst
  rw [← Function.comp_def (Option.map stripped) decode?, ← List.map_map] at hused
  have hread := hdata.congr hused
  have husedLength : used.length = data.length := by
    rw [← hread.length_eq, hdata.length_eq, List.length_map]
  refine ⟨later, hlater, ?_⟩
  unfold read
  rw [hlines]
  show (layerCount other >>= fun count =>
    readRecords (Role.all.length * count) 0 (used ++ later) >>= fun records =>
      (.ok ⟨(group records).toArray⟩ : Except SnapshotError Store)) = _
  rw [layerCount_congr hother.symm hcount]
  show (readRecords (Role.all.length * count) 0 (used ++ later) >>= _) = _
  rw [hread.readRecords_append (by omega), Nat.zero_add, husedLength]
  cases readRecords (Role.all.length * count) data.length later <;> rfl

/-- The announced lines are read, and what follows them is not. -/
theorem read_complete (hcontent : Consists content (header :: (data ++ extra)))
    (hheader : Announces header count) (hdata : LinesRead 0 (data.map decode?) records)
    (hlength : data.length = Role.all.length * count) :
    read content = .ok ⟨(group records).toArray⟩ := by
  obtain ⟨later, _, heq⟩ := read_eq hcontent hheader hdata hlength.le
  rw [heq, readRecords_of_le hlength.ge]
  refine congrArg (fun found => Except.ok (⟨(group found).toArray⟩ : Store)) ?_
  exact List.append_nil records

/-- Where lines are missing, the announced number is told and the number of those that are there. -/
theorem read_truncated (hcontent : Consists content (header :: data))
    (hheader : Announces header count) (hdata : LinesRead 0 (data.map decode?) records)
    (hlength : data.length < Role.all.length * count) :
    read content = .error (.truncated (Role.all.length * count) data.length) := by
  rw [← List.append_nil data] at hcontent
  obtain ⟨later, hlater, heq⟩ := read_eq hcontent hheader hdata hlength.le
  rw [List.map_eq_nil_iff.1 hlater, readRecords_nil hlength] at heq
  exact heq

/-- After lines in order, the line of another position is not read. -/
theorem read_displaced {line : List UInt8} {source : Nat}
    (hcontent : Consists content (header :: (data ++ line :: extra)))
    (hheader : Announces header count) (hdata : LinesRead 0 (data.map decode?) records)
    (hlength : data.length < Role.all.length * count) (hdecode : decode? line = some text)
    (hline : LineRead (layerAt source) (roleAt source) text record)
    (hposition : source ≠ data.length) :
    ∃ error, read content = .error error ∧ Displaced data.length source error := by
  obtain ⟨later, hlater, heq⟩ := read_eq hcontent hheader hdata hlength.le
  obtain ⟨first, rest, rfl, hfirst, _⟩ := List.map_eq_cons_iff.1 hlater
  dsimp only at hfirst
  rw [hdecode] at hfirst
  obtain ⟨other, rfl, hother⟩ := Option.map_eq_some_iff.1 hfirst
  obtain ⟨error, herror, hdisplaced⟩ := (hline.congr hother.symm).displaced hposition
  refine ⟨error, ?_, hdisplaced⟩
  rw [heq, readRecords_some hlength, herror]
  rfl

/-- Of a file that was read, the header announces the layers of the store, and the announced number
of lines is read in order. -/
theorem linesRead_of_read (hcontent : Consists content (header :: data))
    (h : read content = .ok store) :
    Announces header store.size ∧ ∃ records,
      LinesRead 0 ((data.take (Role.all.length * store.size)).map decode?) records ∧
        store = ⟨(group records).toArray⟩ := by
  have hlines := hcontent.lines_stripped
  rw [List.map_cons] at hlines
  obtain ⟨first, rest, hlines, hfirst, hrest⟩ := List.map_eq_cons_iff.1 hlines
  unfold read at h
  rw [hlines] at h
  obtain ⟨text, htext, h⟩ := bind_eq_ok.1 h
  obtain ⟨count, hcount, h⟩ := bind_eq_ok.1 h
  obtain ⟨records, hrecords, h⟩ := bind_eq_ok.1 h
  cases h
  obtain ⟨hread, hlength⟩ := linesRead_of_readRecords hrecords
  rw [Nat.sub_zero] at hread hlength
  have hsize : (⟨(group records).toArray⟩ : Store).size = count := length_group hlength
  rw [hsize]
  constructor
  · cases first with
    | none => cases htext
    | some found =>
        cases htext
        obtain ⟨text', htext', hsame⟩ := Option.map_eq_some_iff.1 hfirst.symm
        exact ⟨text', htext', layerCount_congr hsame.symm hcount⟩
  · refine ⟨records, hread.congr ?_, rfl⟩
    rw [List.map_map, List.map_take, List.map_take, hrest]
    rfl

/-- The first records make the first layers. -/
theorem group_take (records : List Record) (count : Nat) :
    group (records.take (Role.all.length * count)) = (group records).take count := by
  show group (records.take (4 * count)) = _
  induction count generalizing records with
  | zero => rfl
  | succ count ih =>
      rcases records with _ | ⟨input, _ | ⟨output, _ | ⟨weight, _ | ⟨bias, rest⟩⟩⟩⟩
      case cons.cons.cons.cons =>
        rw [Nat.mul_succ]
        show ⟨input, output, weight, bias⟩ :: group (rest.take (4 * count)) =
          ⟨input, output, weight, bias⟩ :: (group rest).take count
        rw [ih]
      all_goals rw [Nat.mul_succ]; rfl

/-- A permutation that moves something moves a first position, to which it brings a later one. -/
theorem exists_first_moved {n : Nat} {σ : Equiv.Perm (Fin n)} (hσ : σ ≠ 1) :
    ∃ first, σ first ≠ first ∧ ∀ i < first, σ i = i := by
  obtain ⟨moved, hmoved⟩ : ∃ i, σ i ≠ i := by
    by_contra hnone
    exact hσ (Equiv.ext fun i => not_not.1 (not_exists.1 hnone i))
  obtain ⟨first, hfirst, hleast⟩ := wellFounded_lt.has_min {i | σ i ≠ i} ⟨moved, hmoved⟩
  exact ⟨first, hfirst, fun i hi => not_not.1 fun hne => hleast i hne hi⟩

/-- Permuted lines begin with those before the first one that is moved, in their order. -/
theorem ofFn_eq {σ : Equiv.Perm (Fin data.length)} {first : Fin data.length}
    (hfixed : ∀ i < first, σ i = i) :
    List.ofFn (fun i => data[σ i]) =
      data.take first ++ data[σ first] :: (List.ofFn fun i => data[σ i]).drop (first + 1) := by
  have hhead : (List.ofFn fun i => data[σ i]).take first = data.take first := by
    refine List.ext_getElem (by simp) fun i hi _ => ?_
    have hi : i < first := by simpa using hi
    have hfix := hfixed ⟨i, hi.trans first.isLt⟩ hi
    simp [hfix]
  have hin : first < (List.ofFn fun i => data[σ i]).length := by simp
  have hnext : data[σ first] = (List.ofFn fun i => data[σ i])[(first : Nat)] := by simp
  rw [hnext, List.cons_getElem_drop_succ, ← hhead, List.take_append_drop]

/-- The lines of a snapshot that was read and has no lines beyond the announced ones are bound to
their positions. (1) If they are permuted, reading fails at the first line that is displaced, for its
layer or its role. (2) If lines are missing at the end, reading fails and tells how many there are.
(3) Lines after them are not looked at. (4) With a header that announces more layers lines are
missing, and with one that announces fewer the first layers are read. Every number of layers whose
records 64 bits count has such a header. -/
theorem read_bound_to_positions (hcontent : Consists content (header :: data))
    (h : read content = .ok store) (hlength : data.length = Role.all.length * store.size) :
    (∀ σ : Equiv.Perm (Fin data.length), σ ≠ 1 →
      ∃ first, σ first ≠ first ∧ (∀ i < first, σ i = i) ∧
        ∀ permuted, Consists permuted (header :: List.ofFn fun i => data[σ i]) →
          ∃ error, read permuted = .error error ∧ Displaced first (σ first) error) ∧
    (∀ count < data.length, ∀ shortened, Consists shortened (header :: data.take count) →
      read shortened = .error (.truncated data.length count)) ∧
    (∀ extra extended, Consists extended (header :: (data ++ extra)) →
      read extended = .ok store) ∧
    ∀ count, 0 < count → Role.all.length * count < Nat.pow 2 64 →
      Announces (Text.bytes (headerLine count)) count ∧
      ∀ other altered, Announces other count → Consists altered (other :: data) →
        (store.size < count →
          read altered = .error (.truncated (Role.all.length * count) data.length)) ∧
        (count < store.size → read altered = .ok ⟨store.layers.take count⟩) := by
  obtain ⟨hheader, records, hread, rfl⟩ := linesRead_of_read hcontent h
  rw [← hlength, List.take_length] at hread
  have hkept : ∀ kept, LinesRead 0 ((data.take kept).map decode?) (records.take kept) := by
    intro kept
    rw [List.map_take]
    exact hread.take kept
  refine ⟨fun σ hσ => ?_, fun count hcount shortened hshortened => ?_,
    fun extra extended hextended => read_complete hextended hheader hread hlength,
    fun count hpositive hbound => ⟨announces_headerLine hpositive hbound,
      fun other altered hother haltered => ⟨fun hmore => ?_, fun hfewer => ?_⟩⟩⟩
  · obtain ⟨first, hmoved, hfixed⟩ := exists_first_moved hσ
    refine ⟨first, hmoved, hfixed, fun permuted hpermuted => ?_⟩
    have hmember : (data.map decode?)[(σ first : Nat)]? = some (decode? data[σ first]) := by simp
    obtain ⟨text, record, hdecode, hline⟩ := hread.lineRead hmember
    rw [Nat.zero_add] at hline
    have hcut : (data.take first).length = first := List.length_take_of_le first.isLt.le
    rw [ofFn_eq hfixed] at hpermuted
    have hdisplaced := read_displaced hpermuted hheader (hkept first)
      (by rw [hcut, ← hlength]; exact first.isLt) hdecode hline
      (by rw [hcut]; exact fun heq => hmoved (Fin.ext heq))
    rw [hcut] at hdisplaced
    exact hdisplaced
  · have hcut : (data.take count).length = count := List.length_take_of_le hcount.le
    have htruncated := read_truncated hshortened hheader (hkept count)
      (by rw [hcut, ← hlength]; exact hcount)
    rw [hcut, ← hlength] at htruncated
    exact htruncated
  · refine read_truncated haltered hother hread ?_
    rw [hlength]
    exact Nat.mul_lt_mul_of_pos_left hmore (by decide)
  · have hlong : Role.all.length * count ≤ data.length := by
      rw [hlength]
      exact Nat.mul_le_mul_left _ hfewer.le
    rw [← List.take_append_drop (Role.all.length * count) data] at haltered
    rw [read_complete haltered hother (hkept _) (List.length_take_of_le hlong), group_take,
      List.take_toArray]

/-- A store of two layers, the second one with a name. -/
def paired : Store := ⟨#[{}, { output := { name := "conv" } }]⟩

/-- The data lines of its snapshot. -/
def pairedLines : List (List UInt8) := (textLines paired).tail.map Text.bytes

theorem paired_hasStoredNames : paired.HasStoredNames := by
  have hset : (Store.empty 2).setName 1 "conv" = .ok paired := rfl
  exact (Store.Collected.setName (.empty 2) (by decide) hset).hasStoredNames

def third : Fin pairedLines.length := ⟨2, by decide⟩

def sixth : Fin pairedLines.length := ⟨5, by decide⟩

/-- The third and the sixth of the lines change places. -/
def swapping : Equiv.Perm (Fin pairedLines.length) := Equiv.swap third sixth

theorem swapping_third : swapping third = sixth := Equiv.swap_apply_left ..

theorem third_ne_sixth : third ≠ sixth := by decide

/-- The third line is the first one that moves. -/
theorem eq_third {first : Fin pairedLines.length} (hmoved : swapping first ≠ first)
    (hfixed : ∀ i < first, swapping i = i) : first = third := by
  rcases lt_trichotomy first third with hlt | heq | hgt
  · have hother : first < sixth := hlt.trans (by decide)
    exact absurd (Equiv.swap_apply_of_ne_of_ne hlt.ne hother.ne) hmoved
  · exact heq
  · exact absurd ((hfixed third hgt).symm.trans swapping_third) third_ne_sixth

/-- The file with two lines swapped, with three lines only, with a line more that is no text, and
with the headers of three layers and of one. -/
theorem paired_misplaced :
    (∃ error, read (fileOf (Text.bytes (headerLine 2) ::
        List.ofFn fun i => pairedLines[swapping i])) = .error error ∧ Displaced 2 5 error) ∧
    read (fileOf (Text.bytes (headerLine 2) :: pairedLines.take 3)) = .error (.truncated 8 3) ∧
    read (fileOf (Text.bytes (headerLine 2) :: (pairedLines ++ [[255]]))) = .ok paired.reread ∧
    read (fileOf (Text.bytes (headerLine 3) :: pairedLines)) = .error (.truncated 12 8) ∧
    read (fileOf (Text.bytes (headerLine 1) :: pairedLines)) =
      .ok ⟨paired.reread.layers.take 1⟩ := by
  have hwritten : Consists (write paired).toUTF8 (Text.bytes (headerLine 2) :: pairedLines) :=
    consists_write paired_hasStoredNames
  have hsize : paired.reread.size = 2 := Store.size_reread paired
  have hlength : pairedLines.length = Role.all.length * paired.reread.size := by
    rw [hsize]
    rfl
  have hread := read_write_eq (by decide) (by decide) paired_hasStoredNames
  obtain ⟨hpermuted, hshortened, hextended, haltered⟩ :=
    read_bound_to_positions hwritten hread hlength
  have hdata : ∀ line ∈ pairedLines, 10 ∉ line := fun line hline =>
    hwritten.cut line (List.mem_cons_of_mem _ hline)
  refine ⟨?_, ?_, ?_, ?_, ?_⟩
  · have hmoves : swapping ≠ 1 := fun hone => by
      have hthird := swapping_third
      rw [hone] at hthird
      exact third_ne_sixth hthird
    obtain ⟨first, hmoved, hfixed, hfails⟩ := hpermuted swapping hmoves
    obtain ⟨error, herror, hdisplaced⟩ := hfails _ (consists_headerLine 2 fun line hline => by
      obtain ⟨i, rfl⟩ := List.mem_ofFn.1 hline
      exact hdata _ (List.getElem_mem _))
    rw [eq_third hmoved hfixed, swapping_third] at hdisplaced
    exact ⟨error, herror, hdisplaced⟩
  · exact hshortened 3 (by decide) _ (consists_headerLine 2 fun line hline =>
      hdata line (List.mem_of_mem_take hline))
  · refine hextended [[255]] _ (consists_headerLine 2 fun line hline => ?_)
    rcases List.mem_append.1 hline with hline | hline
    · exact hdata line hline
    · rw [List.mem_singleton.1 hline]
      decide
  · exact ((haltered 3 (by decide) (by decide)).2 _ _ (announces_headerLine (by decide) (by decide))
      (consists_headerLine 3 hdata)).1 (by rw [hsize]; decide)
  · exact ((haltered 1 (by decide) (by decide)).2 _ _ (announces_headerLine (by decide) (by decide))
      (consists_headerLine 1 hdata)).2 (by rw [hsize]; decide)

end Snapshot

end LayerQuant
