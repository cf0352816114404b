import Mathlib
import LayerQuant.Json.Reader
import LayerQuant.Json.Writer
import LayerQuant.Proofs.FixedDecimals

/-!
# Numbers of a document read back

Every number is written as a sign and a `Numeral`, that is, whole digits, and a fraction and an
exponent where it has them. A numeral is read up to its end wherever no character follows that could
continue it (`readNumber_numeral`), so what is read does not depend on what follows: it is
`JsonNumber.reread`.
Read `Numeral` and `readNumber_write` first.
-/

namespace LayerQuant

namespace Json

/-- The parts in which a number is written after its sign. -/
structure Numeral where
  whole : List Char
  fraction : List Char
  /-- Whether the exponent is negative, and its digits. -/
  exponent : Option (Bool × List Char)

/-- What is written for an exponent. -/
def exponentText : Option (Bool × List Char) → List Char
  | none => []
  | some (negative, digits) => 'e' :: (if negative then '-' else '+') :: digits

namespace Numeral

/-- The parts one after the other. -/
def text (numeral : Numeral) : List Char :=
  numeral.whole ++ (Decimal.fractionText numeral.fraction ++ exponentText numeral.exponent)

/-- The number that the parts stand for after a sign. -/
def value (numeral : Numeral) (negative : Bool) : JsonNumber :=
  numberOf negative numeral.whole numeral.fraction
    (numeral.exponent.map fun (negative, digits) =>
      Binary.signed negative (Decimal.ofDigits digits))

/-- The whole part has digits, of which the first is a zero only if it stands alone. The other parts
have digits only, and an exponent has some. -/
structure WellFormed (numeral : Numeral) : Prop where
  whole : numeral.whole ≠ []
  wholeDigits : ∀ c ∈ numeral.whole, c.isDigit = true
  leading : numeral.whole.head? = some '0' → numeral.whole.length = 1
  fractionDigits : ∀ c ∈ numeral.fraction, c.isDigit = true
  exponent : ∀ {negative digits}, numeral.exponent = some (negative, digits) →
    digits ≠ [] ∧ ∀ c ∈ digits, c.isDigit = true

end Numeral

/-- Whether a number may go on with the character. -/
def continues (c : Char) : Bool := c.isDigit || c == '.' || c == 'e' || c == 'E'

/-- The text does not go on with a number that stands before it. -/
def Ends (rest : List Char) : Prop := ∀ c ∈ rest.head?, continues c = false

variable {rest : List Char}

/-- Digits are taken up to the first character that is none. -/
theorem span_digits {digits : List Char} (hdigits : ∀ c ∈ digits, c.isDigit = true)
    (hrest : ∀ c ∈ rest.head?, c.isDigit = false) :
    (digits ++ rest).takeWhile Char.isDigit = digits ∧
      (digits ++ rest).dropWhile Char.isDigit = rest := by
  have hnone : rest.takeWhile Char.isDigit = [] ∧ rest.dropWhile Char.isDigit = rest := by
    cases rest with
    | nil => exact ⟨rfl, rfl⟩
    | cons c later =>
        have hc := hrest c rfl
        exact ⟨List.takeWhile_cons_of_neg (by simp [hc]), List.dropWhile_cons_of_neg (by simp [hc])⟩
  rw [List.takeWhile_append_of_pos hdigits, List.dropWhile_append_of_pos hdigits, hnone.1, hnone.2,
    List.append_nil]
  exact ⟨rfl, rfl⟩

theorem Ends.not_digit (h : Ends rest) : ∀ c ∈ rest.head?, c.isDigit = false := by
  intro c hc
  have hends := h c hc
  simp only [continues, Bool.or_eq_false_iff] at hends
  exact hends.1.1.1

theorem readExponent_text {exponent : Option (Bool × List Char)}
    (hexponent : ∀ {negative digits}, exponent = some (negative, digits) →
      digits ≠ [] ∧ ∀ c ∈ digits, c.isDigit = true)
    (h : Ends rest) :
    readExponent (exponentText exponent ++ rest) =
      some (exponent.map fun (negative, digits) =>
        Binary.signed negative (Decimal.ofDigits digits), rest) := by
  cases exponent with
  | none =>
      cases rest with
      | nil => rfl
      | cons c later =>
          have hends := h c rfl
          simp only [continues, Bool.or_eq_false_iff] at hends
          simp [exponentText, readExponent, hends]
  | some parts =>
      obtain ⟨negative, digits⟩ := parts
      obtain ⟨hnonempty, hdigits⟩ := hexponent rfl
      obtain ⟨htake, hdrop⟩ := span_digits hdigits h.not_digit
      have hsign : Decimal.splitSign ((if negative then '-' else '+') :: (digits ++ rest)) =
          (negative, digits ++ rest) := by
        cases negative <;> rfl
      show readExponent ('e' :: (if negative then '-' else '+') :: (digits ++ rest)) = _
      simp [readExponent, hsign, htake, hdrop, hnonempty]

theorem readFraction_text {fraction : List Char} (hdigits : ∀ c ∈ fraction, c.isDigit = true)
    (hrest : ∀ c ∈ rest.head?, c.isDigit = false ∧ c ≠ '.') :
    readFraction (Decimal.fractionText fraction ++ rest) = some (fraction, rest) := by
  cases fraction with
  | nil =>
      show readFraction rest = some ([], rest)
      unfold readFraction
      split
      · rename_i later
        exact absurd rfl (hrest '.' rfl).2
      · rfl
  | cons digit more =>
      obtain ⟨htake, hdrop⟩ := span_digits hdigits fun c hc => (hrest c hc).1
      show readFraction ('.' :: (digit :: more ++ rest)) = _
      rw [readFraction, htake, hdrop]
      rfl

/-- What may follow the whole digits of a number is no digit. -/
theorem Ends.exponent (h : Ends rest) (exponent : Option (Bool × List Char)) :
    ∀ c ∈ (exponentText exponent ++ rest).head?, c.isDigit = false ∧ c ≠ '.' := by
  intro c hc
  cases exponent with
  | none =>
      have hends := h c hc
      simp only [continues, Bool.or_eq_false_iff, beq_eq_false_iff_ne] at hends
      exact ⟨hends.1.1.1, hends.1.1.2⟩
  | some parts =>
      obtain rfl : 'e' = c := Option.some.inj hc
      decide

/-- Reads a number after its sign. -/
def readUnsigned (negative : Bool) (text : List Char) : Option (JsonNumber × List Char) :=
  let whole := text.takeWhile Char.isDigit
  if whole.isEmpty || (whole.head? == some '0' && whole.length != 1) then none
  else do
    let (fraction, rest) ← readFraction (text.dropWhile Char.isDigit)
    let (exponent, rest) ← readExponent rest
    some (numberOf negative whole fraction exponent, rest)

theorem readNumber_sign (negative : Bool) {text : List Char} (h : ∀ c ∈ text.head?, c ≠ '-') :
    readNumber ((if negative then ['-'] else []) ++ text) = readUnsigned negative text := by
  cases negative with
  | true => rfl
  | false =>
      show readNumber text = _
      unfold readNumber
      split
      rename_i sign body heq
      split at heq
      · exact absurd rfl (h '-' rfl)
      · cases heq
        rfl

/-- A numeral is read up to its end. -/
theorem readNumber_numeral {numeral : Numeral} (hformed : numeral.WellFormed) (negative : Bool)
    (h : Ends rest) :
    readNumber ((if negative then ['-'] else []) ++ (numeral.text ++ rest)) =
      some (numeral.value negative, rest) := by
  obtain ⟨whole, fraction, exponent⟩ := numeral
  have hfraction : ∀ c ∈ (Decimal.fractionText fraction ++
      (exponentText exponent ++ rest)).head?, c.isDigit = false := by
    intro c hc
    cases fraction with
    | nil => exact (h.exponent exponent c hc).1
    | cons digit more =>
        obtain rfl : '.' = c := Option.some.inj hc
        decide
  obtain ⟨htake, hdrop⟩ := span_digits hformed.wholeDigits hfraction
  have hread := readFraction_text hformed.fractionDigits (h.exponent exponent)
  have hreadExponent := readExponent_text hformed.exponent h
  have hlead : (whole.isEmpty || (whole.head? == some '0' && whole.length != 1)) = false := by
    have hwhole : whole ≠ [] := hformed.whole
    have hleading : whole.head? = some '0' → whole.length = 1 := hformed.leading
    simpa [hwhole] using hleading
  have hminus : ∀ c ∈ (whole ++ (Decimal.fractionText fraction ++
      (exponentText exponent ++ rest))).head?, c ≠ '-' := by
    obtain ⟨digit, more, rfl⟩ := List.exists_cons_of_ne_nil hformed.whole
    rintro c hc rfl
    obtain rfl : digit = '-' := Option.some.inj hc
    exact absurd (hformed.wholeDigits '-' (List.mem_cons_self ..)) (by decide)
  rw [Numeral.text, List.append_assoc, List.append_assoc, readNumber_sign negative hminus,
    readUnsigned, htake, hdrop, hlead, hread]
  show (readExponent _ >>= _) = _
  rw [hreadExponent]
  rfl

end Json

/-! ## What is written is a numeral -/

namespace Decimal

/-- The digits of a positive number start with no zero. -/
theorem head_toDigits {n : Nat} (h : n ≠ 0) : (Nat.toDigits 10 n).head? ≠ some '0' := by
  induction n using Nat.strongRecOn with
  | ind n ih =>
      by_cases hlt : n < 10
      · rw [Nat.toDigits_of_lt_base hlt]
        simpa [Nat.digitChar_eq_zero] using h
      · rw [Nat.toDigits_of_base_le (by decide) (Nat.le_of_not_lt hlt),
          List.head?_append_of_ne_nil _ Nat.toDigits_ne_nil]
        exact ih (n / 10) (by omega) (by omega)

theorem isDigit_toDigits (n : Nat) : ∀ c ∈ Nat.toDigits 10 n, c.isDigit = true :=
  fun _ hc => Nat.isDigit_of_mem_toDigits (by decide) (by decide) hc

theorem leading_toDigits (n : Nat) (h : (Nat.toDigits 10 n).head? = some '0') :
    (Nat.toDigits 10 n).length = 1 := by
  by_cases hzero : n = 0
  · rw [hzero]
    rfl
  · exact absurd h (head_toDigits hzero)

/-- A positive decimal starts with a zero only if that is its whole part. -/
theorem length_writeFixed {places n : Nat} (hplaces : places ≠ 0) (hn : n ≠ 0)
    (hhead : (writeFixed places n).toList.head? = some '0') :
    (writeFixed places n).toList.length = places + 2 := by
  have hdigits : 0 < (Nat.toDigits 10 n).length := Nat.length_toDigits_pos
  generalize hpadded :
    List.replicate (places + 1 - (Nat.toDigits 10 n).length) '0' ++ Nat.toDigits 10 n = padded
  have hlength : padded.length =
      places + 1 - (Nat.toDigits 10 n).length + (Nat.toDigits 10 n).length := by
    rw [← hpadded, List.length_append, List.length_replicate]
  have htext : (writeFixed places n).toList =
      padded.take (padded.length - places) ++ '.' :: padded.drop (padded.length - places) := by
    unfold writeFixed
    dsimp only
    rw [hpadded, if_neg hplaces, String.toList_ofList]
  have hstart : padded.take (padded.length - places) ≠ [] := by
    rw [ne_eq, List.take_eq_nil_iff, not_or]
    exact ⟨by omega, List.ne_nil_of_length_pos (by omega)⟩
  rw [htext, List.head?_append_of_ne_nil _ hstart, List.head?_take, if_neg (by omega)] at hhead
  have hpadding : places + 1 - (Nat.toDigits 10 n).length ≠ 0 := by
    intro hnone
    rw [hnone, List.replicate_zero, List.nil_append] at hpadded
    rw [← hpadded] at hhead
    exact head_toDigits hn hhead
  rw [htext, List.length_append, List.length_cons, List.length_take, List.length_drop]
  omega

end Decimal

namespace JsonNumber

open Json

/-- The digits of a natural number are a numeral. -/
theorem wellFormed_toDigits (n : Nat) : Numeral.WellFormed ⟨Nat.toDigits 10 n, [], none⟩ :=
  ⟨Nat.toDigits_ne_nil, Decimal.isDigit_toDigits n, Decimal.leading_toDigits n, nofun, nofun⟩

/-- Digits with an exponent are a numeral. -/
theorem exists_numeral_scientific {digits : List Char} (hnonempty : digits ≠ [])
    (hdigits : ∀ c ∈ digits, c.isDigit = true) (exponent : Int) : ∃ numeral : Numeral,
      numeral.WellFormed ∧ (writeScientific digits exponent).toList = numeral.text := by
  obtain ⟨first, more, rfl⟩ := List.exists_cons_of_ne_nil hnonempty
  have hfirst : ∀ c ∈ [first], c.isDigit = true := by simpa using hdigits first (by simp)
  refine ⟨⟨[first], more, some (decide (exponent < 0), Nat.toDigits 10 exponent.natAbs)⟩,
    ⟨List.cons_ne_nil _ _, hfirst, fun _ => rfl, fun c hc => hdigits c (by simp [hc]), ?_⟩, ?_⟩
  · rintro negative digits heq
    cases heq
    exact ⟨Nat.toDigits_ne_nil, Decimal.isDigit_toDigits _⟩
  · have hexponent : ((if exponent < 0 then "e-" else "e+") ++ toString exponent.natAbs).toList =
        exponentText (some (decide (exponent < 0), Nat.toDigits 10 exponent.natAbs)) := by
      rw [String.toList_append, Nat.toString_eq_repr, Nat.toList_repr]
      by_cases hnegative : exponent < 0 <;> simp [exponentText, hnegative]
    unfold writeScientific
    rw [String.append_assoc, String.toList_append, hexponent, String.toList_ofList]
    cases more <;> rfl

/-- Every decimal is written as a numeral. -/
theorem exists_numeral_decimal (d : Decimal) : ∃ numeral : Numeral,
    numeral.WellFormed ∧ (writeDecimal d).toList = numeral.text := by
  unfold writeDecimal
  dsimp only
  split
  · exact ⟨⟨['0'], ['0'], none⟩, ⟨by simp, by simp, by simp, by simp, nofun⟩, rfl⟩
  rename_i hzero
  split
  · exact exists_numeral_scientific Nat.toDigits_ne_nil (Decimal.isDigit_toDigits _) _
  split
  · refine ⟨⟨Nat.toDigits 10 (d.coefficient * Nat.pow 10 d.exponent.toNat), ['0'], none⟩,
      ⟨Nat.toDigits_ne_nil, Decimal.isDigit_toDigits _, Decimal.leading_toDigits _, by simp, nofun⟩,
      ?_⟩
    rw [String.toList_append, Nat.toString_eq_repr, Nat.toList_repr]
    rfl
  · rename_i hexponent
    have hplaces : (-d.exponent).toNat ≠ 0 := by omega
    obtain ⟨whole, fraction, htext, hwhole, hlength, hdigits, -⟩ :=
      Decimal.toList_writeFixed (-d.exponent).toNat d.coefficient
    have hleading : whole.head? = some '0' → whole.length = 1 := by
      intro hhead
      have hlengths := Decimal.length_writeFixed hplaces hzero
      rw [htext, List.head?_append_of_ne_nil _ hwhole] at hlengths
      have hfraction : (Decimal.fractionText fraction).length = fraction.length + 1 := by
        cases fraction with
        | nil => exact absurd hlength.symm hplaces
        | cons digit more => rfl
      have htotal := hlengths hhead
      rw [List.length_append, hfraction] at htotal
      omega
    refine ⟨⟨whole, fraction, none⟩, ⟨hwhole, fun c hc => hdigits c (List.mem_append_left _ hc),
      hleading, fun c hc => hdigits c (List.mem_append_right _ hc), nofun⟩, ?_⟩
    rw [htext, Numeral.text]
    show _ = whole ++ (Decimal.fractionText fraction ++ [])
    rw [List.append_nil]

/-- Every number is written as a numeral after its sign. -/
theorem exists_numeral (n : JsonNumber) : ∃ negative : Bool, ∃ numeral : Numeral,
    numeral.WellFormed ∧
      n.write.toList = (if negative then ['-'] else []) ++ numeral.text := by
  cases n with
  | natural value =>
      refine ⟨false, _, wellFormed_toDigits value, ?_⟩
      simp [write, Numeral.text, Decimal.fractionText, exponentText, Nat.toString_eq_repr,
        Nat.toList_repr]
  | negative magnitude =>
      refine ⟨true, _, wellFormed_toDigits magnitude, ?_⟩
      simp [write, Numeral.text, Decimal.fractionText, exponentText, Nat.toString_eq_repr,
        Nat.toList_repr]
  | real minus d =>
      obtain ⟨numeral, hformed, htext⟩ := exists_numeral_decimal d
      refine ⟨minus, numeral, hformed, ?_⟩
      rw [write, String.toList_append, htext]
      cases minus <;> rfl

/-- A number starts with a minus sign or a digit. -/
theorem exists_first (n : JsonNumber) : ∃ c text,
    n.write.toList = c :: text ∧ (c.isDigit = true ∨ c = '-') := by
  obtain ⟨negative, numeral, hformed, htext⟩ := n.exists_numeral
  obtain ⟨digit, more, hwhole⟩ := List.exists_cons_of_ne_nil hformed.whole
  rw [htext, Numeral.text, hwhole]
  cases negative with
  | true => exact ⟨'-', _, rfl, .inr rfl⟩
  | false =>
      exact ⟨digit, _, rfl, .inl (hformed.wholeDigits digit (hwhole ▸ List.mem_cons_self ..))⟩

/-- The number that is read for another one, which was written. -/
def reread (n : JsonNumber) : JsonNumber :=
  match readNumber n.write.toList with
  | some (again, _) => again
  | none => n

/-- A number that was written is read up to its end, whatever follows that does not continue it. -/
theorem readNumber_write (n : JsonNumber) {rest : List Char} (h : Ends rest) :
    readNumber (n.write.toList ++ rest) = some (n.reread, rest) := by
  obtain ⟨negative, numeral, hformed, htext⟩ := n.exists_numeral
  have halone : readNumber n.write.toList = some (numeral.value negative, []) := by
    have hread := readNumber_numeral hformed negative (show Ends [] from nofun)
    rwa [List.append_nil, ← htext] at hread
  rw [reread, halone, htext, List.append_assoc]
  exact readNumber_numeral hformed negative h

/-! ## Natural numbers -/

theorem le_foldl_digits (digits : List Char) (value : Nat) :
    value ≤ digits.foldl (fun n c => 10 * n + Decimal.digitValue c) value := by
  induction digits generalizing value with
  | nil => exact Nat.le_refl _
  | cons digit rest ih =>
      have hnext := ih (10 * value + Decimal.digitValue digit)
      rw [List.foldl_cons]
      omega

/-- All digits of a number below the bound are kept. -/
theorem keepDigits_eq (digits : List Char) (value : Nat)
    (h : digits.foldl (fun n c => 10 * n + Decimal.digitValue c) value < Nat.pow 2 64) :
    keepDigits value digits =
      (digits.foldl (fun n c => 10 * n + Decimal.digitValue c) value, digits.length) := by
  induction digits generalizing value with
  | nil => rfl
  | cons digit rest ih =>
      rw [List.foldl_cons] at h
      have hnext := (le_foldl_digits rest _).trans_lt h
      rw [keepDigits]
      dsimp only
      rw [if_pos hnext, ih _ h]
      rfl

/-- A natural number below the bound comes back as it was. -/
theorem reread_natural {n : Nat} (h : n < Nat.pow 2 64) : (natural n).reread = natural n := by
  have hvalue : Decimal.ofDigits (Nat.toDigits 10 n) = n :=
    Nat.ofDigitChars_toDigits (by decide) (by decide)
  have hkept : keepDigits 0 (Nat.toDigits 10 n) = (n, (Nat.toDigits 10 n).length) := by
    unfold Decimal.ofDigits at hvalue
    rw [keepDigits_eq _ _ (hvalue.symm ▸ h), hvalue]
  have hread := readNumber_numeral (wellFormed_toDigits n) false (show Ends [] from nofun)
  have htext : (natural n).write.toList = Nat.toDigits 10 n := by
    rw [write, Nat.toString_eq_repr, Nat.toList_repr]
  have hnumeral : readNumber (Nat.toDigits 10 n) =
      some (numberOf false (Nat.toDigits 10 n) [] none, []) := by
    simpa [Numeral.text, Numeral.value, Decimal.fractionText, exponentText] using hread
  rw [reread, htext, hnumeral]
  simp [numberOf, hkept]

end JsonNumber

end LayerQuant
