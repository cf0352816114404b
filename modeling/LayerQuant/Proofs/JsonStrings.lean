import Mathlib
import LayerQuant.Json.Reader
import LayerQuant.Json.Writer

/-!
# Strings of a document read back

A character of a text is written by an escape, from which its code point is read
(`readCodes_escape`). The code points of a text are joined to that text again, since no character is
half of a surrogate pair (`joinCodes_toNat`). Read `readString_escaped` first.
-/

namespace LayerQuant.Json

/-! ## Escapes -/

/-- Puts the code point of a character before the code points that are read after it. -/
def consCode (c : Char) (rest : List Char) : Option (List Nat × List Char) :=
  (readCodes rest).map fun (codes, rest) => (c.toNat :: codes, rest)

variable {c : Char}

/-- A letter after a backslash stands for a character. -/
theorem readCodes_letter {letter : Char} (h : unescape? letter = some c) (rest : List Char) :
    readCodes ('\\' :: letter :: rest) = consCode c rest := by
  have hletter : letter ≠ 'u' := by
    rintro rfl
    cases h
  rw [readCodes, h]
  · cases hcodes : readCodes rest <;> simp [consCode, hcodes]
  · intro _ _ _ _ _ heq
    exact absurd heq hletter

/-- Four hexadecimal digits stand for a control character. -/
theorem readCodes_control (h : c.toNat < 0x20) (rest : List Char) :
    readCodes ('\\' :: 'u' :: '0' :: '0' :: Nat.digitChar (c.toNat / 16) ::
      Nat.digitChar (c.toNat % 16) :: rest) = consCode c rest := by
  have hcode : ∀ n < 0x20,
      hexFour? '0' '0' (Nat.digitChar (n / 16)) (Nat.digitChar (n % 16)) = some n := by decide
  rw [readCodes, hcode _ h]
  cases hcodes : readCodes rest <;> simp [consCode, hcodes]

/-- A character that is neither a quote nor a backslash nor a control character stands for
itself. -/
theorem readCodes_plain (hquote : c ≠ '"') (hslash : c ≠ '\\') (hcontrol : ¬c.toNat < 0x20)
    (rest : List Char) : readCodes (c :: rest) = consCode c rest := by
  rw [readCodes]
  · cases hcodes : readCodes rest <;> simp [consCode, hcodes, hslash, hcontrol]
  · exact hquote
  · intro _ _ _ _ _ heq
    exact absurd heq hslash
  · intro _ _ heq
    exact absurd heq hslash

/-- A character is escaped by a letter, by hexadecimal digits or not at all. -/
theorem escape_cases (c : Char) :
    (∃ letter, escape c = ['\\', letter] ∧ unescape? letter = some c) ∨
      (c.toNat < 0x20 ∧ escape c = ['\\', 'u', '0', '0', Nat.digitChar (c.toNat / 16),
        Nat.digitChar (c.toNat % 16)]) ∨
      (c ≠ '"' ∧ c ≠ '\\' ∧ ¬c.toNat < 0x20 ∧ escape c = [c]) := by
  unfold escape
  split
  iterate 7 exact .inl ⟨_, rfl, rfl⟩
  rename_i hquote hslash _ _ _ _ _
  split
  · rename_i hcontrol
    exact .inr (.inl ⟨hcontrol, rfl⟩)
  · rename_i hcontrol
    exact .inr (.inr ⟨hquote, hslash, hcontrol, rfl⟩)

/-- The code point of a character is read from the escape that it is written by. -/
theorem readCodes_escape (c : Char) (rest : List Char) :
    readCodes (escape c ++ rest) = consCode c rest := by
  rcases escape_cases c with ⟨letter, hescape, hletter⟩ | ⟨hcontrol, hescape⟩ |
    ⟨hquote, hslash, hcontrol, hescape⟩
  · rw [hescape]
    exact readCodes_letter hletter rest
  · rw [hescape]
    exact readCodes_control hcontrol rest
  · rw [hescape]
    exact readCodes_plain hquote hslash hcontrol rest

/-! ## Code points -/

/-- No character is half of a surrogate pair. -/
theorem not_surrogate (c : Char) : ¬(0xD800 ≤ c.toNat ∧ c.toNat < 0xE000) := by
  rintro ⟨hlow, hhigh⟩
  rcases c.valid with hvalid | ⟨hvalid, -⟩
  · have hlt : c.toNat < 0xD800 := hvalid
    omega
  · have hlt : 0xDFFF < c.toNat := hvalid
    omega

/-- The code points of characters are those of a text. -/
theorem joinCodes_toNat (text : List Char) : joinCodes (text.map Char.toNat) = some text := by
  induction text with
  | nil => rfl
  | cons c rest ih =>
      have hsurrogate := not_surrogate c
      cases rest with
      | nil =>
          show (if 0xD800 ≤ c.toNat ∧ c.toNat < 0xE000 then none else some [Char.ofNat c.toNat]) = _
          rw [if_neg hsurrogate, Char.ofNat_toNat]
      | cons next rest =>
          have hpair : ¬(0xD800 ≤ c.toNat ∧ c.toNat < 0xDC00 ∧ 0xDC00 ≤ next.toNat ∧
              next.toNat < 0xE000) := by
            rintro ⟨hlow, hhigh, -⟩
            exact hsurrogate ⟨hlow, by omega⟩
          rw [List.map_cons, List.map_cons, joinCodes, if_neg hpair, if_neg hsurrogate,
            ← List.map_cons, ih, Option.map_some, Char.ofNat_toNat]

/-- A text is read from its escaped characters up to the closing quote. -/
theorem readString_escaped (text : String) (rest : List Char) :
    readString (text.toList.flatMap escape ++ '"' :: rest) = some (some text, rest) := by
  have hcodes : ∀ chars : List Char, readCodes (chars.flatMap escape ++ '"' :: rest) =
      some (chars.map Char.toNat, rest) := by
    intro chars
    induction chars with
    | nil => rfl
    | cons c chars ih =>
        rw [List.flatMap_cons, List.append_assoc, readCodes_escape, consCode, ih]
        rfl
  rw [readString, hcodes]
  show some ((joinCodes _).map String.ofList, rest) = _
  rw [joinCodes_toNat, Option.map_some, String.ofList_toList]

end LayerQuant.Json
