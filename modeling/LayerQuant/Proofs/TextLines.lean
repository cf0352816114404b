import Mathlib
import LayerQuant.Text.Lines

/-!
# Lines that are written are the lines that are read

Text that was written line by line is cut into the same lines, if no line holds a line feed or ends
with a carriage return (`lines_join`), and no line that is read holds a line feed (`not_mem_lines`).
Lines are cut in UTF-8. Cutting agrees with the characters because a byte below 128 stands for its
own character wherever it occurs (`eq_of_mem_utf8EncodeChar`). Read `byteLines_append` first.
-/

namespace LayerQuant.Text

/-! ## Bytes and characters -/

/-- A byte below 128 only encodes the character with its number. -/
theorem eq_of_mem_utf8EncodeChar {byte : UInt8} {c : Char} (hlow : byte.toNat < 128)
    (h : byte ∈ String.utf8EncodeChar c) : c.toNat = byte.toNat := by
  -- All bytes of a longer encoding have the highest bit set.
  have hhigh : ∀ n, byte = UInt8.ofNat n → 128 ≤ n → n < 256 → False := by
    rintro n rfl hn hsmall
    rw [UInt8.toNat_ofNat', Nat.mod_eq_of_lt hsmall] at hlow
    omega
  unfold String.utf8EncodeChar at h
  dsimp only at h
  split at h
  · rename_i hsmall
    rw [List.mem_singleton.1 h, UInt8.toNat_ofNat', Nat.mod_eq_of_lt (by omega)]
    rfl
  · exfalso
    split at h
    · simp only [List.mem_cons, List.not_mem_nil, or_false] at h
      rcases h with h | h <;> exact hhigh _ h (by omega) (by omega)
    · split at h
      · simp only [List.mem_cons, List.not_mem_nil, or_false] at h
        rcases h with h | h | h <;> exact hhigh _ h (by omega) (by omega)
      · simp only [List.mem_cons, List.not_mem_nil, or_false] at h
        rcases h with h | h | h | h <;> exact hhigh _ h (by omega) (by omega)

/-- The encoding of a text. -/
def bytes (text : String) : List UInt8 := text.toList.flatMap String.utf8EncodeChar

/-- The encoding is what is written to a file. -/
theorem bytes_eq (text : String) : text.toUTF8.data.toList = bytes text := by
  rw [String.toUTF8_eq_toByteArray, ← String.utf8Encode_toList]
  exact List.toList_data_toByteArray

/-- The encoding of a text after another one. -/
theorem bytes_append (left right : String) : bytes (left ++ right) = bytes left ++ bytes right := by
  unfold bytes
  rw [String.toList_append, List.flatMap_append]

/-- Encoded text is decoded to itself. -/
theorem fromUTF8?_bytes (text : String) :
    String.fromUTF8? (ByteArray.mk (bytes text).toArray) = some text := by
  have hbytes : ByteArray.mk (bytes text).toArray = text.toByteArray := by
    rw [← bytes_eq, String.toUTF8_eq_toByteArray]
  unfold String.fromUTF8?
  rw [hbytes, dif_pos text.isValidUTF8]
  rfl

/-- What is decoded to a text is its encoding. -/
theorem eq_bytes_of_fromUTF8? {line : List UInt8} {text : String}
    (h : String.fromUTF8? (ByteArray.mk line.toArray) = some text) : line = bytes text := by
  unfold String.fromUTF8? at h
  split at h
  · cases h
    rw [← bytes_eq]
    rfl
  · cases h

/-- The encoding has a line feed where the text has one. -/
theorem lineFeed_mem_bytes {text : String} : 10 ∈ bytes text ↔ '\n' ∈ text.toList := by
  unfold bytes
  rw [List.mem_flatMap]
  constructor
  · rintro ⟨c, hmem, hbyte⟩
    have hc : c = '\n' := Char.toNat_inj.1 (eq_of_mem_utf8EncodeChar (by decide) hbyte)
    rwa [← hc]
  · intro hmem
    exact ⟨'\n', hmem, by decide⟩

/-- The encoding ends with a carriage return only if the text does. -/
theorem carriageReturn_of_bytes {text : String} (h : (bytes text).getLast? = some 13) :
    text.toList.getLast? = some '\r' := by
  unfold bytes at h
  rcases List.eq_nil_or_concat text.toList with hnil | ⟨before, c, hconcat⟩
  · rw [hnil] at h
    cases h
  · rw [hconcat, List.concat_eq_append, List.flatMap_append, List.flatMap_singleton,
      List.getLast?_append_of_ne_nil _ (String.utf8EncodeChar_ne_nil)] at h
    have hc : c = '\r' :=
      Char.toNat_inj.1 (eq_of_mem_utf8EncodeChar (by decide) (List.mem_of_getLast? h))
    rw [hconcat, hc, List.concat_eq_append, List.getLast?_concat]

/-! ## Cutting -/

/-- A line without line feed is cut off at the line feed after it. -/
theorem byteLines_append {line : List UInt8} (hfeed : 10 ∉ line) (hreturn : line.getLast? ≠ some 13)
    (rest : List UInt8) : byteLines (line ++ 10 :: rest) = line :: byteLines rest := by
  induction line with
  | nil =>
    show byteLines (10 :: rest) = [] :: byteLines rest
    rw [byteLines]
  | cons byte tail ih =>
    have hbyte : byte ≠ 10 := fun heq => hfeed (by simp [heq])
    have htail : 10 ∉ tail := fun hmem => hfeed (List.mem_cons_of_mem _ hmem)
    have hlast : tail.getLast? ≠ some 13 := by
      intro hthirteen
      refine hreturn ?_
      rw [List.getLast?_cons, hthirteen]
      rfl
    have hpair : ∀ later, byte = 13 → tail ++ 10 :: rest = 10 :: later → False := by
      rintro later rfl hcons
      cases tail with
      | nil => exact hreturn rfl
      | cons next tail =>
        cases hcons
        exact htail (by simp)
    show byteLines (byte :: (tail ++ 10 :: rest)) = (byte :: tail) :: byteLines rest
    rw [byteLines, ih htail hlast]
    · exact hpair
    · exact hbyte

/-- No line holds a line feed. -/
theorem not_mem_byteLines {line content : List UInt8} (h : line ∈ byteLines content) :
    10 ∉ line := by
  fun_induction byteLines content generalizing line with
  | case1 => cases h
  | case2 rest ih =>
    rcases List.mem_cons.1 h with rfl | hrest
    · exact List.not_mem_nil
    · exact ih hrest
  | case3 rest ih =>
    rcases List.mem_cons.1 h with rfl | hrest
    · exact List.not_mem_nil
    · exact ih hrest
  | case4 byte rest hpair hbyte hnil ih =>
    rw [List.mem_singleton.1 h, List.mem_singleton]
    exact Ne.symm hbyte
  | case5 byte rest hpair hbyte first later hcons ih =>
    rw [hcons] at ih
    rcases List.mem_cons.1 h with rfl | hlater
    · rw [List.mem_cons]
      rintro (heq | hmem)
      · exact hbyte heq.symm
      · exact ih (List.mem_cons_self ..) hmem
    · exact ih (List.mem_cons_of_mem _ hlater)

/-- Text that was written line by line is cut into these lines. -/
theorem lines_join (texts : List String) (hfeed : ∀ text ∈ texts, '\n' ∉ text.toList)
    (hreturn : ∀ text ∈ texts, text.toList.getLast? ≠ some '\r') :
    lines (String.join (texts.map (· ++ "\n"))).toUTF8 = texts.map some := by
  unfold lines
  rw [bytes_eq]
  induction texts with
  | nil => rfl
  | cons text later ih =>
    have hjoin : String.join ((text :: later).map (· ++ "\n")) =
        text ++ ("\n" ++ String.join (later.map (· ++ "\n"))) := by
      apply String.toList_injective
      simp [String.toList_join]
    have hcut : 10 ∉ bytes text := lineFeed_mem_bytes.not.2 (hfeed text (List.mem_cons_self ..))
    have hlast : (bytes text).getLast? ≠ some 13 :=
      fun hthirteen => hreturn text (List.mem_cons_self ..) (carriageReturn_of_bytes hthirteen)
    rw [hjoin, bytes_append, bytes_append]
    show (byteLines (bytes text ++ 10 :: bytes _)).map _ = some text :: later.map some
    rw [byteLines_append hcut hlast, List.map_cons, fromUTF8?_bytes,
      ih (fun other hmem => hfeed other (List.mem_cons_of_mem _ hmem))
        (fun other hmem => hreturn other (List.mem_cons_of_mem _ hmem))]

/-- No line that is read holds a line feed. -/
theorem not_mem_lines {content : ByteArray} {text : String} (h : some text ∈ lines content) :
    '\n' ∉ text.toList := by
  obtain ⟨line, hline, htext⟩ := List.mem_map.1 h
  rw [← lineFeed_mem_bytes, ← eq_bytes_of_fromUTF8? htext]
  exact not_mem_byteLines hline

end LayerQuant.Text
