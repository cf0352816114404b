import Mathlib
import LayerQuant.Text.Blank
import LayerQuant.Text.Field

/-!
# Fields that are written are the fields that are read

A field without blanks is cut off at the blank after it (`fields_cons`), a natural number is read from
its digits (`natural?_toString`), and trimming is described by what it leaves alone
(`trimBy_eq_self`). Read `trimBy_eq_self` first.
-/

namespace LayerQuant.Text

/-! ## Fields -/

/-- A field without blanks is cut off at the blank after it. -/
theorem fields_cons {field : List Char} (h : ' ' ∉ field) (count : Nat) (rest : List Char) :
    fields (count + 2) (field ++ ' ' :: rest) = field :: fields (count + 1) rest := by
  have hkept : ∀ c ∈ field, (c != ' ') = true := by
    intro c hc
    rw [bne_iff_ne]
    rintro rfl
    exact h hc
  have hdrop : (field ++ ' ' :: rest).dropWhile (· != ' ') = ' ' :: rest :=
    List.dropWhile_append_of_pos hkept
  have htake : (field ++ ' ' :: rest).takeWhile (· != ' ') = field := by
    rw [List.takeWhile_append_of_pos hkept]
    exact List.append_nil field
  rw [fields, hdrop, htake]

/-- What is in no field and is no blank is not in the line. -/
theorem not_mem_of_fields {c : Char} {field rest : List Char} (hblank : c ≠ ' ') (hfield : c ∉ field)
    (hrest : c ∉ rest) : c ∉ field ++ ' ' :: rest := by
  rw [List.mem_append, List.mem_cons]
  rintro (hmem | heq | hmem)
  · exact hfield hmem
  · exact hblank heq
  · exact hrest hmem

/-- Fields hold the characters of the text. -/
theorem getD_fields_subset (count i : Nat) (text : List Char) :
    (fields count text).getD i [] ⊆ text := by
  fun_induction fields count text generalizing i with
  | case1 text => exact List.nil_subset _
  | case2 text =>
    cases i with
    | zero => exact List.Subset.refl _
    | succ i => exact List.nil_subset _
  | case3 count text hnil =>
    cases i with
    | zero => exact List.Subset.refl _
    | succ i => exact List.nil_subset _
  | case4 count text blank rest hrest ih =>
    cases i with
    | zero => exact List.takeWhile_subset _
    | succ i =>
      have hsuffix : rest ⊆ text := by
        intro c hc
        refine (List.dropWhile_suffix (· != ' ')).subset ?_
        rw [hrest]
        exact List.mem_cons_of_mem _ hc
      exact List.Subset.trans (ih i) hsuffix

/-- The text of a natural number is a row of digits. -/
theorem isDigit_of_mem_toString {n : Nat} {c : Char} (h : c ∈ (toString n).toList) :
    c.isDigit = true := by
  rw [Nat.toString_eq_repr, Nat.toList_repr] at h
  exact Nat.isDigit_of_mem_toDigits (by decide) (by decide) h

/-- What is no digit is not in the text of a natural number. -/
theorem not_mem_toString {c : Char} (h : c.isDigit = false) (n : Nat) : c ∉ (toString n).toList := by
  intro hmem
  rw [isDigit_of_mem_toString hmem] at h
  cases h

/-- A natural number below the bound is read from its text. -/
theorem natural?_toString {n : Nat} (h : n < Nat.pow 2 64) :
    natural? (toString n).toList = some n := by
  have hdigits : (toString n).toList.all Char.isDigit = true :=
    List.all_eq_true.2 fun c hc => isDigit_of_mem_toString hc
  have htext : (toString n).toList = Nat.toDigits 10 n := Nat.toList_repr
  have hvalue : Decimal.ofDigits (Nat.toDigits 10 n) = n :=
    Nat.ofDigitChars_toDigits (by decide) (by decide)
  rw [htext] at hdigits ⊢
  have hnonempty : (Nat.toDigits 10 n).isEmpty = false :=
    List.isEmpty_eq_false_iff.2 Nat.toDigits_ne_nil
  unfold natural?
  split
  · rename_i rest hplus
    rw [hplus, List.all_cons] at hdigits
    cases hdigits
  · dsimp only
    rw [hnonempty, hdigits, hvalue, if_pos]
    simpa using h

/-- A digit is not blank. -/
theorem isBlank_of_isDigit {c : Char} (h : c.isDigit = true) : isBlank c = false := by
  simp only [Char.isDigit, Bool.and_eq_true, decide_eq_true_eq, ge_iff_le,
    UInt32.le_iff_toNat_le] at h
  have hlow : 48 ≤ c.toNat := h.1
  have hhigh : c.toNat ≤ 57 := h.2
  simp only [isBlank, Bool.or_eq_false_iff, Bool.and_eq_false_iff, beq_eq_false_iff_ne,
    decide_eq_false_iff_not]
  omega

/-! ## Trimming -/

variable {drop : Char → Bool} {text : List Char}

/-- Trimming drops at both ends, one after the other. -/
theorem trimBy_eq (drop : Char → Bool) (text : List Char) :
    trimBy drop text = (text.dropWhile drop).rdropWhile drop := rfl

/-- Trimming leaves alone what has nothing to drop at either end. -/
theorem trimBy_eq_self :
    trimBy drop text = text ↔ text.dropWhile drop = text ∧ text.rdropWhile drop = text := by
  rw [trimBy_eq]
  constructor
  · intro h
    have hright := (List.rdropWhile_prefix drop (text.dropWhile drop)).length_le
    rw [h] at hright
    have hleft : text.dropWhile drop = text :=
      (List.dropWhile_suffix drop).eq_of_length (le_antisymm (List.length_dropWhile_le _ _) hright)
    rw [hleft] at h
    exact ⟨hleft, h⟩
  · rintro ⟨hleft, hright⟩
    rw [hleft, hright]

/-- Trimming leaves alone what holds nothing to drop. -/
theorem trimBy_of_forall (h : ∀ c ∈ text, drop c = false) : trimBy drop text = text := by
  rw [trimBy_eq_self, List.dropWhile_eq_self_iff, List.rdropWhile_eq_self_iff]
  constructor
  · intro hlength hdrop
    rw [h _ (List.getElem_mem hlength)] at hdrop
    cases hdrop
  · intro hnonempty hdrop
    rw [h _ (List.getLast_mem hnonempty)] at hdrop
    cases hdrop

/-- Trimmed text has nothing left to drop. -/
theorem trimBy_trimBy (drop : Char → Bool) (text : List Char) :
    trimBy drop (trimBy drop text) = trimBy drop text := by
  rw [trimBy_eq_self]
  constructor
  · -- What is left starts like the text after the first cut.
    rw [trimBy_eq, List.dropWhile_eq_self_iff]
    intro hlength
    have hstart := List.rdropWhile_prefix drop (text.dropWhile drop)
    rw [hstart.getElem hlength]
    exact List.dropWhile_eq_self_iff.1 (List.dropWhile_idempotent drop text)
      (hlength.trans_le hstart.length_le)
  · exact List.rdropWhile_idempotent drop _

/-- Trimming only drops characters. -/
theorem trimBy_subset (drop : Char → Bool) (text : List Char) : trimBy drop text ⊆ text :=
  fun _ h => (List.dropWhile_suffix drop).subset ((List.rdropWhile_prefix drop _).subset h)

end LayerQuant.Text
