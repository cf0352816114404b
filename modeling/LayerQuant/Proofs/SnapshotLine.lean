import LayerQuant.Calibration.Snapshot
import LayerQuant.Proofs.Construction
import LayerQuant.Proofs.FixedDecimals
import LayerQuant.Proofs.SnapshotNames

/-!
# One line of a snapshot

`Snapshot.LineRead` says when a line is read as a record, field by field, and `readRecord_eq_ok` that
reading does just that. The line that is written for a record has the fields of the record
(`lineFields_line`), so it is read as the record `Record.reread` (`lineRead_line`), which is written
as the same line (`line_reread`). Read `readRecord_eq_ok` and `lineFields_line` first.
-/

namespace LayerQuant

/-- Single numbers come back from the decimals of a snapshot. -/
theorem Format.single_carries : Format.single.Carries Snapshot.places :=
  ⟨by decide, by decide, by decide⟩

/-- Double numbers come back from the decimals of a snapshot. -/
theorem Format.double_carries : Format.double.Carries Snapshot.places :=
  ⟨by decide, by decide, by decide⟩

namespace Record

/-- The record that is read for another one, which was written to a snapshot. -/
def reread (record : Record) : Record :=
  { record with
    minimum := record.minimum.reread Snapshot.places
    maximum := record.maximum.reread Snapshot.places
    sum := record.sum.reread Snapshot.places
    sumSquares := record.sumSquares.reread Snapshot.places }

/-- The second record may be read for the first one, which was written to a snapshot. -/
structure ReadsBack (record again : Record) : Prop where
  minimum : record.minimum.ReadsBack Snapshot.places again.minimum
  maximum : record.maximum.ReadsBack Snapshot.places again.maximum
  sum : record.sum.ReadsBack Snapshot.places again.sum
  sumSquares : record.sumSquares.ReadsBack Snapshot.places again.sumSquares
  count_eq : again.count = record.count
  name_eq : again.name = record.name

theorem readsBack_reread (record : Record) : record.ReadsBack record.reread where
  minimum := Binary.readsBack_reread Format.single_carries record.minimum
  maximum := Binary.readsBack_reread Format.single_carries record.maximum
  sum := Binary.readsBack_reread Format.double_carries record.sum
  sumSquares := Binary.readsBack_reread Format.double_carries record.sumSquares
  count_eq := rfl
  name_eq := rfl

end Record

namespace Snapshot

/-! ## Reading a line -/

/-- The fields of a line, without the line end. -/
def lineFields (text : String) : List (List Char) :=
  Text.fields 8 (text.toList.reverse.dropWhile fun c => c == '\r' || c == '\n').reverse

/-- The line is read as the record, as far as its place and its fields tell. -/
structure LineRead (layer : Nat) (role : Role) (text : String) (record : Record) : Prop where
  layer_eq : Text.natural? ((lineFields text).getD 0 []) = some layer
  role_eq : (lineFields text).getD 1 [] = [role.tag, ':']
  count_eq : ∃ count, Text.natural? ((lineFields text).getD 2 []) = some count ∧
    UInt64.ofNat count = record.count
  minimum_eq : Binary.ofChars? .single ((lineFields text).getD 3 []) = some record.minimum
  maximum_eq : Binary.ofChars? .single ((lineFields text).getD 4 []) = some record.maximum
  sum_eq : Binary.ofChars? .double ((lineFields text).getD 5 []) = some record.sum
  sumSquares_eq : Binary.ofChars? .double ((lineFields text).getD 6 []) = some record.sumSquares
  name_eq : trimName (String.ofList ((lineFields text).getD 7 [])) = record.name

theorem readField_eq_ok {α : Type} {line : Nat} {field : String} {read : List Char → Option α}
    {value : List Char} {x : α} : readField line field read value = .ok x ↔ read value = some x := by
  unfold readField
  split
  · rename_i result hresult
    rw [hresult, Except.ok.injEq, Option.some.injEq]
  · rename_i hnone
    rw [hnone]
    constructor
    · intro h
      cases h
    · intro h
      cases h

/-- A record is read exactly from the lines of `LineRead`. -/
theorem readRecord_eq_ok {line layer : Nat} {role : Role} {text : String} {record : Record} :
    readRecord line layer role text = .ok record ↔ LineRead layer role text record := by
  unfold readRecord
  refine ite_error_eq_ok.trans ((and_congr_right fun _ => ite_error_eq_ok).trans ?_)
  simp only [bind_eq_ok, readField_eq_ok]
  constructor
  · rintro ⟨hlayer, hrole, count, hcount, minimum, hminimum, maximum, hmaximum, sum, hsum,
      sumSquares, hsumSquares, hrecord⟩
    cases hrecord
    exact ⟨not_not.1 hlayer, not_not.1 hrole, ⟨count, hcount, rfl⟩, hminimum, hmaximum, hsum,
      hsumSquares, rfl⟩
  · intro h
    obtain ⟨count, hcount, hvalue⟩ := h.count_eq
    refine ⟨not_not.2 h.layer_eq, not_not.2 h.role_eq, count, hcount, _, h.minimum_eq, _,
      h.maximum_eq, _, h.sum_eq, _, h.sumSquares_eq, ?_⟩
    have hname := h.name_eq
    unfold lineFields at hname
    rw [hvalue, hname]
    rfl

/-- The name that is read from a line fits a snapshot. -/
theorem LineRead.isStoredName {layer : Nat} {role : Role} {text : String} {record : Record}
    (h : LineRead layer role text record) (hline : '\n' ∉ text.toList) :
    IsStoredName record.name := by
  rw [← h.name_eq]
  refine isStoredName_trimName ?_
  rw [String.toList_ofList]
  -- The name is a part of the line without its end.
  intro hmem
  have hbody := Text.getD_fields_subset _ _ _ hmem
  exact hline ((List.rdropWhile_prefix _ text.toList).subset hbody)

/-! ## Writing a line -/

/-- The fields of the line that is written for a record. -/
def recordFields (layer : Nat) (role : Role) (record : Record) : List (List Char) :=
  [(toString layer).toList, [role.tag, ':'], (toString record.count.toNat).toList,
    (record.minimum.toFixed places).toList, (record.maximum.toFixed places).toList,
    (record.sum.toFixed places).toList, (record.sumSquares.toFixed places).toList,
    record.name.toList]

/-- A line is made of its fields and of a blank between any two of them. -/
theorem toList_line (layer : Nat) (role : Role) (record : Record) :
    (line layer role record).toList =
      (toString layer).toList ++ ' ' :: ([role.tag, ':'] ++ ' ' ::
        ((toString record.count.toNat).toList ++ ' ' ::
          ((record.minimum.toFixed places).toList ++ ' ' ::
            ((record.maximum.toFixed places).toList ++ ' ' ::
              ((record.sum.toFixed places).toList ++ ' ' ::
                ((record.sumSquares.toFixed places).toList ++ ' ' :: record.name.toList)))))) := by
  simp [line, Char.toString]

/-- A line ends with its name, or with a blank if the name is empty. -/
theorem getLast?_line (layer : Nat) (role : Role) (record : Record) :
    (line layer role record).toList.getLast? = some (record.name.toList.getLast?.getD ' ') := by
  rw [toList_line]
  simp only [List.getLast?_append, List.getLast?_cons, Option.some_or, Option.getD_some]

/-- A line with a name that fits does not end with a character of line ends. -/
theorem last_line {layer : Nat} {role : Role} {record : Record} (hname : IsStoredName record.name)
    {c : Char} (hlast : (line layer role record).toList.getLast? = some c) :
    (c == '\r' || c == '\n') = false := by
  rw [getLast?_line] at hlast
  cases hlastName : record.name.toList.getLast? with
  | none =>
    rw [hlastName] at hlast
    cases hlast
    rfl
  | some c' =>
    rw [hlastName] at hlast
    cases hlast
    have hblank := hname.getLast? hlastName
    unfold isNameBlank at hblank
    simp only [Bool.or_eq_false_iff] at hblank ⊢
    exact ⟨hblank.1.2, hblank.2⟩

/-- The line of a record has the fields of the record. -/
theorem lineFields_line (layer : Nat) (role : Role) {record : Record}
    (hname : IsStoredName record.name) :
    lineFields (line layer role record) = recordFields layer role record := by
  have hbody : ((line layer role record).toList.reverse.dropWhile
      fun c => c == '\r' || c == '\n').reverse = (line layer role record).toList := by
    refine List.rdropWhile_eq_self_iff.2 ?_
    intro hnonempty
    rw [last_line hname (List.getLast?_eq_some_getLast hnonempty)]
    decide
  have htag : ' ' ∉ [role.tag, ':'] := by cases role <;> decide
  unfold lineFields
  rw [hbody, toList_line, Text.fields_cons (Text.not_mem_toString rfl _), Text.fields_cons htag,
    Text.fields_cons (Text.not_mem_toString rfl _),
    Text.fields_cons (Binary.not_mem_toFixed rfl (by decide) _),
    Text.fields_cons (Binary.not_mem_toFixed rfl (by decide) _),
    Text.fields_cons (Binary.not_mem_toFixed rfl (by decide) _),
    Text.fields_cons (Binary.not_mem_toFixed rfl (by decide) _)]
  rfl

/-- The line of a record with a name that fits holds no line feed. -/
theorem not_mem_line (layer : Nat) (role : Role) {record : Record}
    (hname : IsStoredName record.name) : '\n' ∉ (line layer role record).toList := by
  have htag : '\n' ∉ [role.tag, ':'] := by cases role <;> decide
  rw [toList_line]
  refine Text.not_mem_of_fields (by decide) (Text.not_mem_toString rfl _) ?_
  refine Text.not_mem_of_fields (by decide) htag ?_
  refine Text.not_mem_of_fields (by decide) (Text.not_mem_toString rfl _) ?_
  refine Text.not_mem_of_fields (by decide) (Binary.not_mem_toFixed rfl (by decide) _) ?_
  refine Text.not_mem_of_fields (by decide) (Binary.not_mem_toFixed rfl (by decide) _) ?_
  refine Text.not_mem_of_fields (by decide) (Binary.not_mem_toFixed rfl (by decide) _) ?_
  refine Text.not_mem_of_fields (by decide) (Binary.not_mem_toFixed rfl (by decide) _) ?_
  exact hname.oneLine

/-- The line of a record is read as the record that comes back. -/
theorem lineRead_line {layer : Nat} (hlayer : layer < Nat.pow 2 64) (role : Role) {record : Record}
    (hname : IsStoredName record.name) :
    LineRead layer role (line layer role record) record.reread := by
  have hfields := lineFields_line layer role hname
  constructor <;> rw [hfields]
  · exact Text.natural?_toString hlayer
  · rfl
  · exact ⟨_, Text.natural?_toString record.count.toNat_lt, UInt64.ofNat_toNat⟩
  · exact Binary.ofChars?_toFixed Format.single_carries record.minimum
  · exact Binary.ofChars?_toFixed Format.single_carries record.maximum
  · exact Binary.ofChars?_toFixed Format.double_carries record.sum
  · exact Binary.ofChars?_toFixed Format.double_carries record.sumSquares
  · show trimName (String.ofList record.name.toList) = record.name
    rw [String.ofList_toList]
    exact hname.trimmed

/-- The record that comes back is written as the same line. -/
theorem line_reread (layer : Nat) (role : Role) (record : Record) :
    line layer role record.reread = line layer role record := by
  unfold line Record.reread
  rw [Binary.toFixed_reread Format.single_carries, Binary.toFixed_reread Format.single_carries,
    Binary.toFixed_reread Format.double_carries, Binary.toFixed_reread Format.double_carries]

end Snapshot

end LayerQuant
