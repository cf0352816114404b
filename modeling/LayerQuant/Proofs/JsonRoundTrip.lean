import Mathlib
import LayerQuant.Proofs.JsonNumbers
import LayerQuant.Proofs.JsonStrings

/-!
# Documents read back

A value that was written, on one line or with indentation, is read as the same value up to its
numbers, whose decimals may be spelled differently: `Json.reread` says what comes back
(`ofText?_toIndented`). A part of a document is read up to its end whatever follows it
(`readValue_write`), by an induction over values in which the blanks between the parts are skipped.
Each step into a part takes one unit of depth and at least one character, which bounds the depth by
the length of the text. Read `reread` and `readValue_write` first.
-/

namespace LayerQuant.Json

mutual

/-- The value that is read for another one, which was written. -/
def reread : Json → Json
  | null => null
  | bool value => bool value
  | number value => number value.reread
  | string text => string (some (text.getD ""))
  | array items => array (rereadItems items)
  | object members => object (rereadMembers members)

/-- The items that are read for others, which were written. -/
def rereadItems : List Json → List Json
  | [] => []
  | item :: rest => reread item :: rereadItems rest

/-- The members that are read for others, which were written. -/
def rereadMembers : List (Option String × Json) → List (Option String × Json)
  | [] => []
  | (key, value) :: rest => (some (key.getD ""), reread value) :: rereadMembers rest

end

/-! ## Blanks -/

/-- Nothing but blanks. -/
def Blank (text : List Char) : Prop := ∀ c ∈ text, isSpace c = true

/-- The parts of a document are set apart by blanks. -/
structure Style.Blank (style : Style) : Prop where
  afterColon : Json.Blank style.afterColon.toList
  newLine : ∀ level, Json.Blank (style.newLine level).toList

theorem Style.indented_blank : Style.indented.Blank := by
  constructor
  · show ∀ c ∈ [' '], isSpace c = true
    simp [isSpace]
  · intro level c hc
    simp only [Style.indented, String.toList_append, String.toList_ofList, List.mem_append] at hc
    rcases hc with hc | hc
    · obtain rfl : c = '\n' := List.mem_singleton.1 hc
      rfl
    · rw [List.eq_of_mem_replicate hc]
      rfl

variable {blank text : List Char} {c : Char}

theorem skipSpace_append (h : Blank blank) (text : List Char) :
    skipSpace (blank ++ text) = skipSpace text :=
  List.dropWhile_append_of_pos h

theorem skipSpace_cons (h : isSpace c = false) (text : List Char) :
    skipSpace (c :: text) = c :: text :=
  List.dropWhile_cons_of_neg (by simp [h])

/-- Blanks before a value are skipped. -/
theorem readValue_blank (h : Blank blank) (depth : Nat) (text : List Char) :
    readValue depth (blank ++ text) = readValue depth text := by
  cases depth with
  | zero => rfl
  | succ depth => rw [readValue, readValue, skipSpace_append h]

theorem readItems_blank (h : Blank blank) (depth : Nat) (text : List Char) :
    readItems depth (blank ++ text) = readItems depth text := by
  cases depth with
  | zero => rfl
  | succ depth => rw [readItems, readItems, readValue_blank h]

theorem readMembers_blank (h : Blank blank) (depth : Nat) (text : List Char) :
    readMembers depth (blank ++ text) = readMembers depth text := by
  cases depth with
  | zero => rfl
  | succ depth => rw [readMembers, readMembers, skipSpace_append h]

/-- No number goes on after blanks with a character that starts no number. -/
theorem ends_blank (h : Blank blank) (hc : continues c = false) (text : List Char) :
    Ends (blank ++ c :: text) := by
  intro next hnext
  cases blank with
  | nil =>
      obtain rfl : c = next := Option.some.inj hnext
      exact hc
  | cons first more =>
      obtain rfl : first = next := Option.some.inj hnext
      have hspace := h first (List.mem_cons_self ..)
      simp only [isSpace, Bool.or_eq_true, beq_iff_eq] at hspace
      rcases hspace with ((rfl | rfl) | rfl) | rfl <;> decide

/-! ## The parts of a text -/

/-- The texts of parts, each followed by a comma and a new line except the last. -/
def joined (style : Style) (level : Nat) (parts : List String) : List Char :=
  List.intercalate (',' :: (style.newLine level).toList) (parts.map String.toList)

variable {style : Style} {level depth : Nat} {rest : List Char}

theorem joined_singleton (part : String) : joined style level [part] = part.toList := by
  simp [joined]

theorem joined_cons_cons (part next : String) (parts : List String) :
    joined style level (part :: next :: parts) =
      part.toList ++
        ',' :: ((style.newLine level).toList ++ joined style level (next :: parts)) := by
  simp [joined, List.intercalate_cons_cons]

/-- The first part stands first. -/
theorem joined_first {part : String} (h : part.toList = c :: text) (parts : List String) :
    ∃ more, joined style level (part :: parts) = c :: more := by
  cases parts with
  | nil => exact ⟨text, by rw [joined_singleton, h]⟩
  | cons next parts => exact ⟨_, by rw [joined_cons_cons, h, List.cons_append]⟩

theorem toList_bracket_nil (opening closing : String) :
    (bracket style level opening closing []).toList = opening.toList ++ closing.toList := by
  simp [bracket]

theorem toList_bracket (opening closing part : String) (parts : List String) :
    (bracket style level opening closing (part :: parts)).toList =
      opening.toList ++ ((style.newLine (level + 1)).toList ++
        (joined style (level + 1) (part :: parts) ++
          ((style.newLine level).toList ++ closing.toList))) := by
  simp [bracket, joined, String.toList_intercalate, List.append_assoc]

theorem toList_writeText (text : String) :
    (writeText text).toList = '"' :: (text.toList.flatMap escape ++ ['"']) := by
  simp [writeText]

/-- A character that starts a number is none of those that start something else. -/
theorem ne_of_starts (h : c.isDigit = true ∨ c = '-') {other : Char}
    (hdigit : other.isDigit = false) (hminus : other ≠ '-') : c ≠ other := by
  rintro rfl
  rcases h with h | h
  · rw [hdigit] at h
    cases h
  · exact hminus h

theorem not_space (h : c.isDigit = true ∨ c = '-') : isSpace c = false := by
  have hblank : c ≠ ' ' := ne_of_starts h (by decide) (by decide)
  have hfeed : c ≠ '\n' := ne_of_starts h (by decide) (by decide)
  have htab : c ≠ '\t' := ne_of_starts h (by decide) (by decide)
  have hreturn : c ≠ '\r' := ne_of_starts h (by decide) (by decide)
  simp [isSpace, hblank, hfeed, htab, hreturn]

/-- A value starts with a character that is neither a blank nor the end of an array. -/
theorem exists_first (style : Style) (level : Nat) (value : Json) : ∃ c text,
    (value.write style level).toList = c :: text ∧ isSpace c = false ∧ c ≠ ']' := by
  cases value with
  | null => exact ⟨'n', ['u', 'l', 'l'], by rw [write]; rfl, by decide, by decide⟩
  | bool value =>
      rw [write]
      cases value with
      | false => exact ⟨'f', ['a', 'l', 's', 'e'], rfl, by decide, by decide⟩
      | true => exact ⟨'t', ['r', 'u', 'e'], rfl, by decide, by decide⟩
  | number value =>
      rw [write]
      obtain ⟨c, text, htext, hc⟩ := value.exists_first
      exact ⟨c, text, htext, not_space hc, ne_of_starts hc (by decide) (by decide)⟩
  | string text => exact ⟨'"', _, by rw [write, toList_writeText], by decide, by decide⟩
  | array items =>
      rw [write]
      cases writeItems style (level + 1) items with
      | nil => exact ⟨'[', [']'], toList_bracket_nil .., by decide, by decide⟩
      | cons part parts => exact ⟨'[', _, toList_bracket .., by decide, by decide⟩
  | object members =>
      rw [write]
      cases writeMembers style (level + 1) members with
      | nil => exact ⟨'{', ['}'], toList_bracket_nil .., by decide, by decide⟩
      | cons part parts => exact ⟨'{', _, toList_bracket .., by decide, by decide⟩

theorem exists_first_items (style : Style) (level : Nat) (item : Json) (items : List Json) :
    ∃ c text, joined style level (writeItems style level (item :: items)) = c :: text ∧
      isSpace c = false ∧ c ≠ ']' := by
  obtain ⟨c, text, htext, hc⟩ := exists_first style level item
  rw [writeItems]
  obtain ⟨more, hmore⟩ := joined_first htext (writeItems style level items)
  exact ⟨c, more, hmore, hc⟩

theorem exists_first_members (style : Style) (level : Nat) (member : Option String × Json)
    (members : List (Option String × Json)) :
    ∃ text, joined style level (writeMembers style level (member :: members)) = '"' :: text := by
  obtain ⟨key, value⟩ := member
  have htext : (writeText (key.getD "") ++ ":" ++ style.afterColon ++
      write style level value).toList = '"' :: ((key.getD "").toList.flatMap escape ++
        '"' :: ':' :: (style.afterColon.toList ++ (write style level value).toList)) := by
    simp [writeText]
  rw [writeMembers]
  exact joined_first htext _

/-! ## Reading the parts -/

variable {item value : Json} {items : List Json} {members : List (Option String × Json)}
  {more : List Char}

/-- A mark after blanks is found. -/
theorem skipSpace_mark (h : Blank blank) (hc : isSpace c = false) (rest : List Char) :
    skipSpace (blank ++ c :: rest) = c :: rest := by
  rw [skipSpace_append h, skipSpace_cons hc]

/-- The last item is followed by blanks and the closing bracket. -/
theorem readItems_last (h : Blank blank)
    (hitem : readValue depth text = some (item, blank ++ ']' :: rest)) :
    readItems (depth + 1) text = some ([item], rest) := by
  have hclose := skipSpace_mark h (show isSpace ']' = false by decide) rest
  simp [readItems, hitem, hclose]

/-- Every other item is followed by a comma and more items. -/
theorem readItems_more (hitem : readValue depth text = some (item, ',' :: more))
    (hitems : readItems depth more = some (items, rest)) :
    readItems (depth + 1) text = some (item :: items, rest) := by
  have hcomma := skipSpace_cons (show isSpace ',' = false by decide) more
  simp [readItems, hitem, hcomma, hitems]

/-- What is written for a member: its key, a colon, blanks and its value. -/
def memberText (key : String) (blank text : List Char) : List Char :=
  (writeText key).toList ++ ':' :: (blank ++ text)

/-- What is read from a member on, if the given text follows its value. -/
def afterMember (depth : Nat) (key : String) (value : Json) (text : List Char) :
    Option (List (Option String × Json) × List Char) :=
  match skipSpace text with
  | ',' :: rest => do
    let (members, rest) ← readMembers depth rest
    some ((some key, value) :: members, rest)
  | '}' :: rest => some ([(some key, value)], rest)
  | _ => none

/-- A member is read by its value, and then what follows decides whether there are more. -/
theorem readMembers_member (h : Blank blank) (key : String)
    (hvalue : readValue depth text = some (value, more)) :
    readMembers (depth + 1) (memberText key blank text) = afterMember depth key value more := by
  have hopen := skipSpace_cons (show isSpace '"' = false by decide)
    (key.toList.flatMap escape ++ '"' :: ':' :: (blank ++ text))
  have hcolon := skipSpace_cons (show isSpace ':' = false by decide) (blank ++ text)
  have hkey := readString_escaped key (':' :: (blank ++ text))
  have hblank : readValue depth (blank ++ text) = _ := (readValue_blank h depth text).trans hvalue
  simp only [readMembers, memberText, toList_writeText, List.cons_append, List.append_assoc,
    List.nil_append, hopen, hkey, hcolon, hblank, Option.bind_eq_bind, Option.bind_some]
  rfl

/-- The last member is followed by blanks and the closing bracket. -/
theorem readMembers_last {after : List Char} (h : Blank blank) (hafter : Blank after) (key : String)
    (hvalue : readValue depth text = some (value, after ++ '}' :: rest)) :
    readMembers (depth + 1) (memberText key blank text) = some ([(some key, value)], rest) := by
  have hclose := skipSpace_mark hafter (show isSpace '}' = false by decide) rest
  rw [readMembers_member h key hvalue]
  simp [afterMember, hclose]

/-- Every other member is followed by a comma and more members. -/
theorem readMembers_more (h : Blank blank) (key : String)
    (hvalue : readValue depth text = some (value, ',' :: more))
    (hmembers : readMembers depth more = some (members, rest)) :
    readMembers (depth + 1) (memberText key blank text) =
      some ((some key, value) :: members, rest) := by
  have hcomma := skipSpace_cons (show isSpace ',' = false by decide) more
  rw [readMembers_member h key hvalue]
  simp [afterMember, hcomma, hmembers]

/-- A number is read where a value is expected. -/
theorem readValue_number (n : JsonNumber) (depth : Nat) (h : Ends rest) :
    readValue (depth + 1) (n.write.toList ++ rest) = some (number n.reread, rest) := by
  have hread := n.readNumber_write h
  obtain ⟨c, text, htext, hc⟩ := n.exists_first
  rw [htext, List.cons_append] at hread ⊢
  rw [readValue, skipSpace_cons (not_space hc)]
  split
  case h_7 => rw [hread]; rfl
  all_goals
    rename_i heq
    cases heq
    exact absurd hc (by decide)

/-- The items of an array are read between its brackets. -/
theorem readValue_array {first : Char} (h : Blank blank) (hfirst : isSpace first = false)
    (hclose : first ≠ ']') (hitems : readItems depth (first :: text) = some (items, rest)) :
    readValue (depth + 1) ('[' :: (blank ++ first :: text)) = some (array items, rest) := by
  have hopen := skipSpace_cons (show isSpace '[' = false by decide) (blank ++ first :: text)
  have hskip := skipSpace_mark h hfirst text
  simp [readValue, hopen, hskip, hitems, hclose]

/-- The members of an object are read between its brackets. -/
theorem readValue_object {first : Char} (h : Blank blank) (hfirst : isSpace first = false)
    (hclose : first ≠ '}') (hmembers : readMembers depth (first :: text) = some (members, rest)) :
    readValue (depth + 1) ('{' :: (blank ++ first :: text)) = some (object members, rest) := by
  have hopen := skipSpace_cons (show isSpace '{' = false by decide) (blank ++ first :: text)
  have hskip := skipSpace_mark h hfirst text
  simp [readValue, hopen, hskip, hmembers, hclose]

/-! ## Writing and reading -/

/-- Every value whose text leaves enough depth is read up to its end, whatever follows that does not
continue it. -/
def ReadsValues (style : Style) (depth : Nat) : Prop :=
  ∀ (value : Json) (level : Nat) (rest : List Char),
    2 * (value.write style level).toList.length ≤ depth → Ends rest →
      readValue depth ((value.write style level).toList ++ rest) = some (value.reread, rest)

/-- Items whose text leaves enough depth are read up to the closing bracket. -/
def ReadsItems (style : Style) (depth : Nat) : Prop :=
  ∀ (item : Json) (items : List Json) (level : Nat) (after rest : List Char), Blank after →
    2 * (joined style level (writeItems style level (item :: items))).length < depth →
      readItems depth (joined style level (writeItems style level (item :: items)) ++
        (after ++ ']' :: rest)) = some (rereadItems (item :: items), rest)

/-- Members whose text leaves enough depth are read up to the closing bracket. -/
def ReadsMembers (style : Style) (depth : Nat) : Prop :=
  ∀ (member : Option String × Json) (members : List (Option String × Json)) (level : Nat)
    (after rest : List Char), Blank after →
    2 * (joined style level (writeMembers style level (member :: members))).length < depth →
      readMembers depth (joined style level (writeMembers style level (member :: members)) ++
        (after ++ '}' :: rest)) = some (rereadMembers (member :: members), rest)

section RoundTrip

variable (hstyle : style.Blank)
include hstyle

theorem ReadsItems.succ (hvalues : ReadsValues style depth) (hitems : ReadsItems style depth) :
    ReadsItems style (depth + 1) := by
  intro item items level after rest hafter hdepth
  cases items with
  | nil =>
      simp only [writeItems, joined_singleton, rereadItems] at hdepth ⊢
      refine readItems_last hafter (hvalues item level _ (by omega) ?_)
      exact ends_blank hafter (by decide) rest
  | cons next items =>
      simp only [writeItems, joined_cons_cons, rereadItems, List.length_append,
        List.length_cons] at hdepth ⊢
      simp only [List.append_assoc, List.cons_append]
      refine readItems_more (hvalues item level _ (by omega) fun c hc => ?_) ?_
      · obtain rfl : ',' = c := Option.some.inj hc
        decide
      · rw [readItems_blank (hstyle.newLine level)]
        exact hitems next items level after rest hafter (by simp only [writeItems]; omega)

theorem ReadsMembers.succ (hvalues : ReadsValues style depth)
    (hmembers : ReadsMembers style depth) : ReadsMembers style (depth + 1) := by
  intro member members level after rest hafter hdepth
  obtain ⟨key, value⟩ := member
  have htext : (writeText (key.getD "") ++ ":" ++ style.afterColon ++
      value.write style level).toList =
        memberText (key.getD "") style.afterColon.toList (value.write style level).toList := by
    simp [memberText, List.append_assoc]
  have hmember : ∀ text tail, memberText (key.getD "") style.afterColon.toList text ++ tail =
      memberText (key.getD "") style.afterColon.toList (text ++ tail) := by
    simp [memberText, List.append_assoc]
  have hlength : (value.write style level).toList.length <
      (memberText (key.getD "") style.afterColon.toList
        (value.write style level).toList).length := by
    simp only [memberText, List.length_append, List.length_cons]
    omega
  cases members with
  | nil =>
      simp only [writeMembers, joined_singleton, htext, rereadMembers, hmember] at hdepth ⊢
      refine readMembers_last hstyle.afterColon hafter _ (hvalues value level _ (by omega) ?_)
      exact ends_blank hafter (by decide) rest
  | cons next members =>
      obtain ⟨nextKey, nextValue⟩ := next
      simp only [writeMembers, joined_cons_cons, htext, rereadMembers, List.length_append,
        List.length_cons] at hdepth ⊢
      simp only [List.append_assoc, List.cons_append, hmember]
      refine readMembers_more hstyle.afterColon _ (hvalues value level _ (by omega) fun c hc => ?_)
        ?_
      · obtain rfl : ',' = c := Option.some.inj hc
        decide
      · rw [readMembers_blank (hstyle.newLine level)]
        exact hmembers (nextKey, nextValue) members level after rest hafter
          (by simp only [writeMembers]; omega)

/-- An array is read if the items between its brackets are. -/
theorem ReadsItems.array (h : ReadsItems style depth) (items : List Json)
    (hdepth : 2 * (write style level (array items)).toList.length ≤ depth + 1) :
    readValue (depth + 1) ((write style level (array items)).toList ++ rest) =
      some ((array items).reread, rest) := by
  cases items with
  | nil =>
      have hopen := skipSpace_cons (show isSpace '[' = false by decide) (']' :: rest)
      have hclose := skipSpace_cons (show isSpace ']' = false by decide) rest
      simp [write, writeItems, toList_bracket_nil, readValue, hopen, hclose, reread, rereadItems]
  | cons item items =>
      obtain ⟨first, text, htext, hfirst, hclose⟩ := exists_first_items style (level + 1) item items
      have hread := h item items (level + 1) _ rest (hstyle.newLine level) (by
        simp only [write, writeItems, toList_bracket, List.length_append] at hdepth
        rw [show "[".toList.length = 1 from rfl] at hdepth
        simp only [writeItems]
        omega)
      have hwritten : (write style level (.array (item :: items))).toList ++ rest =
          '[' :: ((style.newLine (level + 1)).toList ++
            (joined style (level + 1) (writeItems style (level + 1) (item :: items)) ++
              ((style.newLine level).toList ++ ']' :: rest))) := by
        simp [write, writeItems, toList_bracket]
      rw [hwritten, reread]
      rw [htext, List.cons_append] at hread ⊢
      exact readValue_array (hstyle.newLine (level + 1)) hfirst hclose hread

/-- An object is read if the members between its brackets are. -/
theorem ReadsMembers.object (h : ReadsMembers style depth) (members : List (Option String × Json))
    (hdepth : 2 * (write style level (object members)).toList.length ≤ depth + 1) :
    readValue (depth + 1) ((write style level (object members)).toList ++ rest) =
      some ((object members).reread, rest) := by
  cases members with
  | nil =>
      have hopen := skipSpace_cons (show isSpace '{' = false by decide) ('}' :: rest)
      have hclose := skipSpace_cons (show isSpace '}' = false by decide) rest
      simp [write, writeMembers, toList_bracket_nil, readValue, hopen, hclose, reread,
        rereadMembers]
  | cons member members =>
      obtain ⟨text, htext⟩ := exists_first_members style (level + 1) member members
      have hread := h member members (level + 1) _ rest (hstyle.newLine level) (by
        simp only [write, writeMembers, toList_bracket, List.length_append] at hdepth
        rw [show "\x7b".toList.length = 1 from rfl] at hdepth
        simp only [writeMembers]
        omega)
      have hwritten : (write style level (.object (member :: members))).toList ++ rest =
          '{' :: ((style.newLine (level + 1)).toList ++
            (joined style (level + 1) (writeMembers style (level + 1) (member :: members)) ++
              ((style.newLine level).toList ++ '}' :: rest))) := by
        simp [write, writeMembers, toList_bracket]
      rw [hwritten, reread]
      rw [htext, List.cons_append] at hread ⊢
      exact readValue_object (hstyle.newLine (level + 1)) (by decide) (by decide) hread

theorem ReadsValues.succ (hitems : ReadsItems style depth) (hmembers : ReadsMembers style depth) :
    ReadsValues style (depth + 1) := by
  intro value level rest hdepth hrest
  cases value with
  | null =>
      have hskip := skipSpace_cons (show isSpace 'n' = false by decide) ('u' :: 'l' :: 'l' :: rest)
      have htext : (write style level null).toList = ['n', 'u', 'l', 'l'] := by
        rw [write]
        rfl
      simp [htext, readValue, hskip, afterWord?, reread]
  | bool value =>
      have hfalse := skipSpace_cons (show isSpace 'f' = false by decide)
        ('a' :: 'l' :: 's' :: 'e' :: rest)
      have htrue := skipSpace_cons (show isSpace 't' = false by decide) ('r' :: 'u' :: 'e' :: rest)
      have htext : (write style level (bool value)).toList =
          if value then ['t', 'r', 'u', 'e'] else ['f', 'a', 'l', 's', 'e'] := by
        rw [write]
        cases value <;> rfl
      cases value <;> simp [htext, readValue, hfalse, htrue, afterWord?, reread]
  | number value =>
      rw [write, reread]
      exact readValue_number value depth hrest
  | string text =>
      have hskip := skipSpace_cons (show isSpace '"' = false by decide)
        ((text.getD "").toList.flatMap escape ++ '"' :: rest)
      have hread := readString_escaped (text.getD "") rest
      simp [write, toList_writeText, readValue, hskip, hread, reread]
  | array items => exact hitems.array hstyle items hdepth
  | object members => exact hmembers.object hstyle members hdepth

/-- Depths are counted down over the parts of a document. -/
theorem reads (depth : Nat) :
    ReadsValues style depth ∧ ReadsItems style depth ∧ ReadsMembers style depth := by
  induction depth with
  | zero =>
      refine ⟨fun value level rest hdepth => ?_, fun _ _ _ _ _ _ hdepth => ?_,
        fun _ _ _ _ _ _ hdepth => ?_⟩
      · obtain ⟨c, text, htext, -⟩ := exists_first style level value
        rw [htext, List.length_cons] at hdepth
        omega
      · omega
      · omega
  | succ depth ih =>
      exact ⟨.succ hstyle ih.2.1 ih.2.2, .succ hstyle ih.1 ih.2.1, .succ hstyle ih.1 ih.2.2⟩

/-- A written value is read again. -/
theorem ofText?_write (value : Json) : ofText? (value.write style 0) = some value.reread := by
  have hread := (reads hstyle (2 * (value.write style 0).length + 2)).1 value 0 []
    (by rw [String.length_toList]; omega) nofun
  rw [List.append_nil] at hread
  rw [ofText?, hread]
  rfl

end RoundTrip

/-- A document with indentation is read again. -/
theorem ofText?_toIndented (value : Json) : ofText? value.toIndented = some value.reread :=
  ofText?_write Style.indented_blank value

end LayerQuant.Json
