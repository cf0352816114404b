import LayerQuant.Proofs.TextLines

/-!
# Texts and their lines in bytes

`Consists content lines` says that a file holds certain lines, as bytes and whatever they encode. The
reader decodes every line on its own, so the lines of the file tell what is read, apart from line
ends: see `Consists.lines_stripped`. A carriage return is left at the end of a line only if no line
feed follows, and `stripped` takes it off there.
-/

namespace LayerQuant.Text

/-- The text that a line encodes, if it is valid UTF-8. -/
def decode? (line : List UInt8) : Option String := String.fromUTF8? (ByteArray.mk line.toArray)

/-- The line without a carriage return at its end. -/
def bare (line : List UInt8) : List UInt8 :=
  if line.getLast? = some 13 then line.dropLast else line

/-- Whether a character belongs to line ends. -/
def isLineEnd (c : Char) : Bool := c == '\r' || c == '\n'

/-- The characters of a line without the line ends after them. -/
def stripped (text : String) : List Char := text.toList.rdropWhile isLineEnd

/-- The bytes of lines, each of them ended by a line feed. -/
def joined (lines : List (List UInt8)) : List UInt8 := lines.flatMap (· ++ [10])

/-- The file holds the lines and nothing else. Each line is ended by a line feed, except that the
last one may do without if it is not empty. -/
structure Consists (content : ByteArray) (lines : List (List UInt8)) : Prop where
  cut : ∀ line ∈ lines, 10 ∉ line
  bytes_eq : content.data.toList = joined lines ∨
    content.data.toList ++ [10] = joined lines ∧ lines.getLast? ≠ some []

variable {line rest : List UInt8} {lines : List (List UInt8)} {content : ByteArray}

/-- The file in which each of the lines is ended by a line feed. -/
def fileOf (lines : List (List UInt8)) : ByteArray := ⟨(joined lines).toArray⟩

/-- Lines without line feeds make a file. -/
theorem consists_fileOf (h : ∀ line ∈ lines, 10 ∉ line) : Consists (fileOf lines) lines :=
  ⟨h, Or.inl rfl⟩

/-- What is written line by line holds the encodings of the lines. -/
theorem consists_join {texts : List String} (hfeed : ∀ text ∈ texts, '\n' ∉ text.toList) :
    Consists (String.join (texts.map (· ++ "\n"))).toUTF8 (texts.map bytes) := by
  refine ⟨?_, Or.inl ?_⟩
  · intro line hline
    obtain ⟨text, htext, rfl⟩ := List.mem_map.1 hline
    exact lineFeed_mem_bytes.not.2 (hfeed text htext)
  · rw [bytes_eq]
    unfold joined bytes
    rw [String.toList_join, List.flatMap_map, List.flatMap_assoc, List.flatMap_map]
    refine List.flatMap_congr fun text _ => ?_
    rw [String.toList_append, List.flatMap_append]
    rfl

/-! ## Cutting -/

/-- A byte that ends no line begins the first line of what follows. -/
theorem byteLines_cons {byte : UInt8} (hbyte : byte ≠ 10)
    (hpair : byte = 13 → rest.head? ≠ some 10) :
    byteLines (byte :: rest) =
      match byteLines rest with
      | [] => [[byte]]
      | line :: later => (byte :: line) :: later := by
  conv_lhs => unfold byteLines
  split
  case h_1 hnil => cases hnil
  case h_2 hreturn =>
    cases hreturn
    exact absurd rfl (hpair rfl)
  case h_3 hfeed =>
    cases hfeed
    exact absurd rfl hbyte
  case h_4 hcons =>
    cases hcons
    rfl

/-- A carriage return before a line feed belongs to the line end. -/
theorem byteLines_return (h : 10 ∉ line) (rest : List UInt8) :
    byteLines (line ++ 13 :: 10 :: rest) = line :: byteLines rest := by
  induction line with
  | nil =>
      show byteLines (13 :: 10 :: rest) = [] :: byteLines rest
      rw [byteLines]
  | cons byte tail ih =>
      obtain ⟨hbyte, htail⟩ := not_or.1 (List.mem_cons.not.1 h)
      have hpair : byte = 13 → (tail ++ 13 :: 10 :: rest).head? ≠ some 10 := by
        intro _ hhead
        cases tail with
        | nil => cases hhead
        | cons next tail =>
            cases hhead
            exact htail (List.mem_cons_self ..)
      rw [List.cons_append, byteLines_cons (Ne.symm hbyte) hpair, ih htail]

/-- A line is cut off at the line feed after it and loses a carriage return. -/
theorem byteLines_ended (h : 10 ∉ line) (rest : List UInt8) :
    byteLines (line ++ 10 :: rest) = bare line :: byteLines rest := by
  unfold bare
  split
  · rename_i hlast
    obtain ⟨init, rfl⟩ := List.getLast?_eq_some_iff.1 hlast
    rw [List.dropLast_concat, List.append_assoc]
    exact byteLines_return (fun hmem => h (List.mem_append_left _ hmem)) rest
  · rename_i hlast
    exact byteLines_append h hlast rest

/-- A line that nothing ends is a line of its own. -/
theorem byteLines_unended (h : 10 ∉ line) (hsome : line ≠ []) : byteLines line = [line] := by
  induction line with
  | nil => exact absurd rfl hsome
  | cons byte tail ih =>
      obtain ⟨hbyte, htail⟩ := not_or.1 (List.mem_cons.not.1 h)
      have hpair : byte = 13 → tail.head? ≠ some 10 :=
        fun _ hhead => htail (List.mem_of_head? hhead)
      rw [byteLines_cons (Ne.symm hbyte) hpair]
      cases tail with
      | nil => rfl
      | cons next tail => rw [ih htail (List.cons_ne_nil _ _)]

/-- Lines that are ended are cut off one after the other. -/
theorem byteLines_joined (h : ∀ line ∈ lines, 10 ∉ line) (rest : List UInt8) :
    byteLines (joined lines ++ rest) = lines.map bare ++ byteLines rest := by
  induction lines with
  | nil => rfl
  | cons line later ih =>
      show byteLines ((line ++ [10] ++ joined later) ++ rest) = _
      rw [List.append_assoc, List.append_assoc]
      show byteLines (line ++ 10 :: (joined later ++ rest)) = _
      rw [byteLines_ended (h line (List.mem_cons_self ..)),
        ih fun other hother => h other (List.mem_cons_of_mem _ hother)]
      rfl

/-! ## Decoding -/

/-- A carriage return at the end of a line is one at the end of its text. -/
theorem decode?_concat (line : List UInt8) :
    decode? (line ++ [13]) = (decode? line).map (· ++ "\r") := by
  cases hline : decode? line with
  | some text =>
      have hbytes : line ++ [13] = bytes (text ++ "\r") := by
        rw [eq_bytes_of_fromUTF8? hline, bytes_append]
        rfl
      rw [hbytes]
      exact fromUTF8?_bytes _
  | none =>
      cases hwhole : decode? (line ++ [13]) with
      | none => rfl
      | some text =>
          have hbytes := eq_bytes_of_fromUTF8? hwhole
          have hlast : text.toList.getLast? = some '\r' := by
            refine carriageReturn_of_bytes ?_
            rw [← hbytes, List.getLast?_concat]
          obtain ⟨init, hinit⟩ := List.getLast?_eq_some_iff.1 hlast
          have hsplit : text = String.ofList init ++ "\r" := by
            apply String.toList_injective
            rw [String.toList_append, String.toList_ofList, hinit]
            rfl
          rw [hsplit, bytes_append] at hbytes
          have hinner : line = bytes (String.ofList init) := List.append_cancel_right hbytes
          rw [hinner] at hline
          cases hline.symm.trans (fromUTF8?_bytes _)

/-- Without its carriage return a line is read as the same text without line ends. -/
theorem decode?_bare (line : List UInt8) :
    (decode? (bare line)).map stripped = (decode? line).map stripped := by
  unfold bare
  split
  · rename_i hlast
    obtain ⟨init, rfl⟩ := List.getLast?_eq_some_iff.1 hlast
    rw [List.dropLast_concat, decode?_concat, Option.map_map]
    congr 1
    funext text
    show stripped text = (text ++ "\r").toList.rdropWhile isLineEnd
    rw [String.toList_append]
    exact (List.rdropWhile_concat_pos _ _ _ rfl).symm
  · rfl

/-- Up to line ends, the lines that are read of a file are those that it holds. -/
theorem Consists.lines_stripped (h : Consists content lines) :
    (Text.lines content).map (·.map stripped) = lines.map fun line => (decode? line).map stripped := by
  show ((byteLines content.data.toList).map decode?).map _ = _
  rw [List.map_map]
  rcases h.bytes_eq with hended | ⟨hunended, hsome⟩
  · have hlines := byteLines_joined h.cut []
    rw [List.append_nil, ← hended] at hlines
    rw [hlines]
    simp [byteLines, decode?_bare]
  · rcases List.eq_nil_or_concat lines with rfl | ⟨init, last, rfl⟩
    · cases List.append_ne_nil_of_right_ne_nil _ (List.cons_ne_nil _ _) hunended
    · rw [List.concat_eq_append] at hunended hsome ⊢
      have hcut := h.cut
      rw [List.concat_eq_append] at hcut
      have hlast : last ≠ [] := by
        rintro rfl
        exact hsome List.getLast?_concat
      have hwhole : content.data.toList ++ [10] = (joined init ++ last) ++ [10] := by
        rw [hunended]
        simp [joined]
      have hbytes := List.append_cancel_right hwhole
      rw [hbytes, byteLines_joined fun line hline => hcut line (List.mem_append_left _ hline),
        byteLines_unended (hcut last (by simp)) hlast]
      simp [decode?_bare]

end LayerQuant.Text
