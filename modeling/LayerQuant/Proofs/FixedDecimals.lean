import LayerQuant.Decimal.Fixed
import LayerQuant.Proofs.Nearest
import LayerQuant.Proofs.Unsigned

/-!
# Numbers read back from decimals with fixed places

A number is written with a fixed count of places and read again. `Binary.ReadsBack` says what the
second number is to the first one; `Binary.ofChars?_toFixed` that reading gives the number `reread`,
`Binary.readsBack_reread` that it is such a second number, and `Binary.toFixed_reread` that it is
written like the first one. The last is the point of the module: the second number is no farther
from the decimal than the first one, so the decimal is the nearest one to both. Read
`Magnitude.lastPlaces_of_nearest` first.
-/

namespace LayerQuant

variable {f : Format} {places : Nat}

/-- What makes numbers of a format come back from decimals with so many places. -/
structure Format.Carries (f : Format) (places : Nat) : Prop where
  /-- Every second magnitude is even. -/
  fraction_pos : 0 < f.fractionBits
  /-- The largest finite magnitude is a whole number. -/
  whole : f.unitBits + 3 ≤ Nat.pow 2 f.exponentBits
  /-- The last place is not so small that it is read as zero. -/
  places_le : places ≤ f.unitBits + 2

namespace Magnitude

/-! ## The nearest decimal -/

/-- A finite magnitude rounded to so many decimal places, counted in units of the last place. -/
def lastPlaces (places : Nat) (m : Magnitude f) : Nat :=
  roundHalfEven (m.units * Nat.pow 10 places) f.one

/-- Whatever is no farther from the decimal of a magnitude than the magnitude itself has the same
decimal. -/
theorem lastPlaces_of_dist_le {m again : Magnitude f}
    (h : Nat.dist (again.units * Nat.pow 10 places) (m.lastPlaces places * f.one) ≤
      Nat.dist (m.units * Nat.pow 10 places) (m.lastPlaces places * f.one)) :
    again.lastPlaces places = m.lastPlaces places := by
  obtain ⟨hdist, htie⟩ := roundHalfEven_dist (m.units * Nat.pow 10 places) f.one_pos
  rw [Nat.dist_comm, Nat.dist_comm (m.units * _)] at h
  refine roundHalfEven_eq f.one_pos (le_trans (Nat.mul_le_mul_left 2 h) hdist) ?_
  -- If the decimal is a half off the second magnitude, it is at least a half off the first one.
  intro hhalf
  exact htie (le_antisymm hdist (hhalf.symm.trans_le (Nat.mul_le_mul_left 2 h)))

/-- The finite magnitude nearest to the decimal of another one has the same decimal. -/
theorem lastPlaces_of_nearest {m again : Magnitude f} (hfinite : m.ordinal < f.infinity)
    (h : again.Nearest (m.lastPlaces places * f.one) (Nat.pow 10 places)) :
    again.lastPlaces places = m.lastPlaces places :=
  lastPlaces_of_dist_le (h.dist_le m hfinite)

/-- The largest finite magnitude is a whole number. -/
theorem exists_whole_largest (h : f.unitBits + 3 ≤ Nat.pow 2 f.exponentBits) :
    ∃ whole, unitsAt f (f.infinity - 1) = whole * f.one := by
  have hbinade := f.binade_pos
  obtain ⟨shift, hshift⟩ := Nat.exists_eq_add_of_le h
  have hordinal : f.infinity - 1 = (f.unitBits + shift) * f.binade + (2 * f.binade - 1) := by
    unfold Format.infinity
    rw [hshift]
    have hexpand : (f.unitBits + 3 + shift - 1) * f.binade =
        (f.unitBits + shift) * f.binade + 2 * f.binade := by
      rw [← Nat.add_mul]
      congr 1
      omega
    omega
  refine ⟨(2 * f.binade - 1) * Nat.pow 2 shift, ?_⟩
  rw [hordinal, unitsAt_eq (by omega) (by omega)]
  show (2 * f.binade - 1) * 2 ^ (f.unitBits + shift) = (2 * f.binade - 1) * 2 ^ shift * 2 ^ f.unitBits
  rw [Nat.pow_add]
  ring

/-- The decimal of a finite magnitude is rounded to a finite magnitude. -/
theorem unclamped_lastPlaces_lt (hcarries : f.Carries places) {m : Magnitude f}
    (hfinite : m.ordinal < f.infinity) :
    unclamped f (m.lastPlaces places * f.one) (Nat.pow 10 places) < f.infinity := by
  have hpower : 0 < Nat.pow 10 places := Nat.pow_pos (by decide)
  obtain ⟨whole, hwhole⟩ := exists_whole_largest hcarries.whole
  have hlargest : m.units ≤ whole * f.one := by
    rw [← hwhole]
    exact (unitsAt_strictMono f).monotone (by omega)
  -- The largest magnitude is a decimal itself, and no decimal of a magnitude exceeds it.
  have hdecimal : m.lastPlaces places ≤ whole * Nat.pow 10 places := by
    have hone : roundHalfEven (whole * Nat.pow 10 places) 1 = whole * Nat.pow 10 places :=
      roundHalfEven_eq Nat.one_pos (by simp) (by simp)
    rw [← hone]
    refine roundHalfEven_mono f.one_pos Nat.one_pos ?_
    calc m.units * Nat.pow 10 places * 1 = m.units * Nat.pow 10 places := Nat.mul_one _
      _ ≤ whole * f.one * Nat.pow 10 places := Nat.mul_le_mul_right _ hlargest
      _ = whole * Nat.pow 10 places * f.one := Nat.mul_right_comm _ _ _
  have hunclamped : unclamped f (m.lastPlaces places * f.one) (Nat.pow 10 places) ≤
      unclamped f (unitsAt f (f.infinity - 1) * Nat.pow 10 places) (Nat.pow 10 places) := by
    refine unclamped_mono f hpower hpower (Nat.mul_le_mul_right _ ?_)
    calc m.lastPlaces places * f.one ≤ whole * Nat.pow 10 places * f.one :=
          Nat.mul_le_mul_right _ hdecimal
      _ = whole * f.one * Nat.pow 10 places := Nat.mul_right_comm _ _ _
      _ = unitsAt f (f.infinity - 1) * Nat.pow 10 places := by rw [hwhole]
  rw [unclamped_unitsAt f _ hpower] at hunclamped
  omega

/-- Rounding finds the finite magnitude nearest to the decimal of another one. -/
theorem nearest_round_lastPlaces (hcarries : f.Carries places) {m : Magnitude f}
    (hfinite : m.ordinal < f.infinity) :
    (round f (m.lastPlaces places * f.one) (Nat.pow 10 places)).Nearest
      (m.lastPlaces places * f.one) (Nat.pow 10 places) :=
  nearest_round hcarries.fraction_pos (Nat.pow_pos (by decide))
    (unclamped_lastPlaces_lt hcarries hfinite)

end Magnitude

/-! ## The digits of a decimal -/

namespace Decimal

/-- What is written after the digits of the whole part: a point and the places, if there are any. -/
def fractionText (fraction : List Char) : List Char :=
  if fraction = [] then [] else '.' :: fraction

/-- A decimal is written with at least one digit, and with all its places after the point. -/
theorem toList_writeFixed (places n : Nat) : ∃ whole fraction : List Char,
    (writeFixed places n).toList = whole ++ fractionText fraction ∧ whole ≠ [] ∧
      fraction.length = places ∧ (∀ c ∈ whole ++ fraction, c.isDigit = true) ∧
      ofDigits (whole ++ fraction) = n := by
  have hdigits : 0 < (Nat.toDigits 10 n).length := Nat.length_toDigits_pos
  generalize hpadded :
    List.replicate (places + 1 - (Nat.toDigits 10 n).length) '0' ++ Nat.toDigits 10 n = padded
  have hlength : places + 1 ≤ padded.length := by
    rw [← hpadded, List.length_append, List.length_replicate]
    omega
  refine ⟨padded.take (padded.length - places), padded.drop (padded.length - places),
    ?_, ?_, ?_, ?_, ?_⟩
  · have hplaces : padded.drop (padded.length - places) = [] ↔ places = 0 := by
      rw [List.drop_eq_nil_iff]
      omega
    unfold writeFixed fractionText
    dsimp only
    rw [hpadded, String.toList_ofList, if_congr hplaces rfl rfl]
    split
    · exact (List.append_nil _).symm
    · rfl
  · intro hnil
    have hzero := congrArg List.length hnil
    rw [List.length_take, List.length_nil] at hzero
    omega
  · rw [List.length_drop]
    omega
  · rw [List.take_append_drop, ← hpadded]
    intro c hc
    rcases List.mem_append.1 hc with hzero | hdigit
    · rw [List.eq_of_mem_replicate hzero]
      rfl
    · exact Nat.isDigit_of_mem_toDigits (by decide) (by decide) hdigit
  · rw [List.take_append_drop, ← hpadded]
    show Nat.ofDigitChars 10 _ 0 = n
    rw [Nat.ofDigitChars_append, Nat.ofDigitChars_replicate_zero, Nat.mul_zero,
      Nat.ofDigitChars_toDigits (by decide) (by decide)]

/-- What is written with fixed places is read with the same coefficient. -/
theorem ofChars?_writeFixed (places n : Nat) :
    ofChars? (writeFixed places n).toList = some ⟨n, -(places : Int)⟩ := by
  obtain ⟨whole, fraction, htext, hwhole, hlength, hdigits, hvalue⟩ := toList_writeFixed places n
  have hleft : ∀ c ∈ whole, c.isDigit = true := fun c hc => hdigits c (List.mem_append_left _ hc)
  have hright : ∀ c ∈ fraction, c.isDigit = true :=
    fun c hc => hdigits c (List.mem_append_right _ hc)
  have hnonempty : whole.isEmpty = false := List.isEmpty_eq_false_iff.2 hwhole
  have hnotDigit : (fractionText fraction).takeWhile Char.isDigit = [] ∧
      (fractionText fraction).dropWhile Char.isDigit = fractionText fraction := by
    cases fraction with
    | nil => exact ⟨rfl, rfl⟩
    | cons digit later => exact ⟨rfl, rfl⟩
  have hsplit : splitFraction (fractionText fraction) = (fraction, []) := by
    cases fraction with
    | nil => rfl
    | cons digit later =>
      show ((digit :: later).takeWhile _, (digit :: later).dropWhile _) = (digit :: later, [])
      rw [List.takeWhile_eq_self_iff.2 hright, List.dropWhile_eq_nil_iff.2 hright]
  unfold ofChars?
  rw [htext, List.takeWhile_append_of_pos hleft, List.dropWhile_append_of_pos hleft, hnotDigit.1,
    hnotDigit.2, hsplit, List.append_nil]
  show (if (whole.isEmpty && fraction.isEmpty) = true then none
    else some (⟨ofDigits (whole ++ fraction), 0 - fraction.length⟩ : Decimal)) = _
  rw [hnonempty, hvalue, hlength, Int.zero_sub]
  rfl

/-- A decimal starts with a digit. -/
theorem exists_digit_writeFixed (places n : Nat) : ∃ digit rest,
    (writeFixed places n).toList = digit :: rest ∧ digit.isDigit = true := by
  obtain ⟨whole, fraction, htext, hwhole, -, hdigits, -⟩ := toList_writeFixed places n
  obtain ⟨digit, rest, rfl⟩ := List.exists_cons_of_ne_nil hwhole
  exact ⟨digit, _, htext, hdigits digit (List.mem_append_left _ (List.mem_cons_self ..))⟩

end Decimal

namespace Binary

/-! ## Numbers -/

/-- The number that is read for another one, which was written with so many places. -/
def reread (places : Nat) : Binary f → Binary f
  | nan => nan
  | number negative m =>
    if m.isInfinite then number negative m
    else ofRatio f negative (m.lastPlaces places) (Nat.pow 10 places)

/-- The second number may be read for the first one, which was written with so many places: a datum
that is not a number and an infinity come back as they are. A finite number was written by a decimal
that is off by at most half a last place, and for it comes the finite number nearest to this decimal,
with the sign that was written. -/
inductive ReadsBack (places : Nat) : Binary f → Binary f → Prop
  | nan : ReadsBack places nan nan
  | infinite (negative : Bool) :
    ReadsBack places (number negative .infinite) (number negative .infinite)
  | finite (negative : Bool) {m again : Magnitude f} (hfinite : m.ordinal < f.infinity)
    (decimal : Nat)
    (hwritten : (number negative m).toFixed places =
      signText negative ++ Decimal.writeFixed places decimal)
    (hdecimal : 2 * Nat.dist (decimal * f.one) (m.units * Nat.pow 10 places) ≤ f.one)
    (hnearest : again.Nearest (decimal * f.one) (Nat.pow 10 places)) :
    ReadsBack places (number negative m) (number negative again)

/-- A finite number is written by its nearest decimal. -/
theorem toFixed_finite (places : Nat) (negative : Bool) {m : Magnitude f}
    (hfinite : m.ordinal < f.infinity) : (number negative m).toFixed places =
      signText negative ++ Decimal.writeFixed places (m.lastPlaces places) := by
  show signText negative ++ (if m.isInfinite then _ else _) = _
  rw [isInfinite_eq_false.2 hfinite]
  rfl

/-- A finite number comes back as the nearest number to its decimal. -/
theorem reread_finite (places : Nat) (negative : Bool) {m : Magnitude f}
    (hfinite : m.ordinal < f.infinity) : (number negative m).reread places =
      number negative (.round f (m.lastPlaces places * f.one) (Nat.pow 10 places)) := by
  show (if m.isInfinite then _ else _) = _
  rw [isInfinite_eq_false.2 hfinite]
  rfl

/-- An infinity is written by its word. -/
theorem toFixed_infinite (places : Nat) (negative : Bool) :
    (number negative (.infinite : Magnitude f)).toFixed places = signText negative ++ "inf" := by
  show signText negative ++ (if (Magnitude.infinite : Magnitude f).isInfinite then _ else _) = _
  rw [isInfinite_iff.2 rfl]
  rfl

/-- An infinity comes back as it is. -/
theorem reread_infinite (places : Nat) (negative : Bool) :
    (number negative (.infinite : Magnitude f)).reread places = number negative .infinite := by
  show (if (Magnitude.infinite : Magnitude f).isInfinite then _ else _) = _
  rw [isInfinite_iff.2 rfl]
  rfl

/-- A number is finite or an infinity. -/
theorem finite_or_infinite (m : Magnitude f) : m.ordinal < f.infinity ∨ m = .infinite := by
  rcases Nat.lt_or_eq_of_le m.le_infinity with hfinite | hinfinite
  · exact Or.inl hfinite
  · exact Or.inr (Magnitude.eq_of_ordinal hinfinite)

/-- The number `reread` may be read. -/
theorem readsBack_reread (hcarries : f.Carries places) (x : Binary f) :
    x.ReadsBack places (x.reread places) := by
  cases x with
  | nan => exact .nan
  | number negative m =>
    rcases finite_or_infinite m with hfinite | rfl
    · rw [reread_finite places negative hfinite]
      exact .finite negative hfinite _ (toFixed_finite places negative hfinite)
        (roundHalfEven_dist (m.units * Nat.pow 10 places) f.one_pos).1
        (Magnitude.nearest_round_lastPlaces hcarries hfinite)
    · rw [reread_infinite]
      exact .infinite negative

/-- The number that is read for another one is written like it. -/
theorem toFixed_reread (hcarries : f.Carries places) (x : Binary f) :
    (x.reread places).toFixed places = x.toFixed places := by
  cases x with
  | nan => rfl
  | number negative m =>
    rcases finite_or_infinite m with hfinite | rfl
    · have hnearest := Magnitude.nearest_round_lastPlaces hcarries hfinite
      rw [reread_finite places negative hfinite, toFixed_finite places negative hfinite,
        toFixed_finite places negative hnearest.finite,
        Magnitude.lastPlaces_of_nearest hfinite hnearest]
    · rw [reread_infinite]

/-! ## Text -/

/-- The text of a number is made of digits and of a few other characters. -/
theorem mem_toFixed {x : Binary f} {c : Char} (h : c ∈ (x.toFixed places).toList) :
    c.isDigit = true ∨ c ∈ "-.infNa".toList := by
  cases x with
  | nan =>
    have hword : "NaN".toList ⊆ "-.infNa".toList := by decide
    exact Or.inr (hword h)
  | number negative m =>
    have hsign : (signText negative).toList ⊆ "-.infNa".toList := by cases negative <;> decide
    rcases finite_or_infinite m with hfinite | rfl
    · obtain ⟨whole, fraction, htext, -, -, hdigits, -⟩ :=
        Decimal.toList_writeFixed places (m.lastPlaces places)
      rw [toFixed_finite places negative hfinite, String.toList_append, htext] at h
      rcases List.mem_append.1 h with hmem | hmem
      · exact Or.inr (hsign hmem)
      · rcases List.mem_append.1 hmem with hwhole | hrest
        · exact Or.inl (hdigits c (List.mem_append_left _ hwhole))
        · unfold Decimal.fractionText at hrest
          split at hrest
          · cases hrest
          · rcases List.mem_cons.1 hrest with rfl | hfraction
            · exact Or.inr (by decide)
            · exact Or.inl (hdigits c (List.mem_append_right _ hfraction))
    · have hword : "inf".toList ⊆ "-.infNa".toList := by decide
      rw [toFixed_infinite, String.toList_append] at h
      rcases List.mem_append.1 h with hmem | hmem
      · exact Or.inr (hsign hmem)
      · exact Or.inr (hword hmem)

/-- Other characters are not in the text of a number. -/
theorem not_mem_toFixed {c : Char} (hdigit : c.isDigit = false) (hmark : c ∉ "-.infNa".toList)
    (x : Binary f) : c ∉ (x.toFixed places).toList := by
  intro hmem
  rcases mem_toFixed hmem with h | h
  · rw [h] at hdigit
    cases hdigit
  · exact hmark h

/-- A decimal with few places is not cut off before it is rounded. -/
theorem ofDecimal_places (hplaces : places ≤ f.unitBits + 2) (negative : Bool) (n : Nat) :
    ofDecimal f negative n (-(places : Int)) = ofRatio f negative n (Nat.pow 10 places) := by
  have hpower : 0 < Nat.pow 10 places := Nat.pow_pos (by decide)
  have hlarge : ¬ ((Nat.pow 2 f.exponentBits : Nat) : Int) ≤ -(places : Int) := by
    have := pow_two_pos f.exponentBits
    omega
  have hsmall : ¬ -(places : Int) < -((n.log2 + f.unitBits + 2 : Nat) : Int) := by omega
  unfold ofDecimal
  by_cases hn : n = 0
  · rw [if_pos hn, hn]
    unfold ofRatio ofUnits
    have hzero : Magnitude.round f 0 (Nat.pow 10 places) = .zero :=
      Magnitude.eq_of_ordinal (Magnitude.round_zero f hpower)
    rw [Nat.zero_mul, hzero]
  · rw [if_neg hn, if_neg hlarge, if_neg hsmall, Int.neg_neg, Int.toNat_natCast]
    by_cases hzero : places = 0
    · subst hzero
      rw [if_pos (by decide)]
      show ofRatio f negative (n * 1) 1 = ofRatio f negative n 1
      rw [Nat.mul_one]
    · rw [if_neg (by omega)]

/-- A digit has no other case. -/
theorem toLower_of_isDigit {c : Char} (h : c.isDigit = true) : c.toLower = c := by
  have hupper : ¬ c.isUpper = true := by
    simp only [Char.isDigit, Char.isUpper, Bool.and_eq_true, decide_eq_true_eq,
      UInt32.le_iff_toNat_le, ge_iff_le] at h ⊢
    simp at h ⊢
    omega
  exact Char.toLower_eq_of_not_isUpper hupper

/-- What starts with a digit is none of the words that are read as numbers. -/
theorem word_ne {digit : Char} (h : digit.isDigit = true) (rest : List Char) {word : String}
    (hword : ∀ c ∈ word.toList.head?, c.isDigit = false) :
    String.ofList ((digit :: rest).map Char.toLower) ≠ word := by
  rintro rfl
  rw [String.toList_ofList, List.map_cons, toLower_of_isDigit h] at hword
  have := hword digit (by simp)
  rw [h] at this
  cases this

/-- A sign in front of a digit is read for what it is. -/
theorem splitSign_signText (negative : Bool) {digit : Char} (h : digit.isDigit = true)
    (rest : List Char) :
    Decimal.splitSign ((signText negative).toList ++ digit :: rest) = (negative, digit :: rest) := by
  cases negative with
  | true => rfl
  | false =>
    show Decimal.splitSign (digit :: rest) = (false, digit :: rest)
    unfold Decimal.splitSign
    split
    · rename_i hminus
      rw [(List.cons.inj hminus).1] at h
      cases h
    · rename_i hplus
      rw [(List.cons.inj hplus).1] at h
      cases h
    · rfl

/-- The text of a number is read as the number that comes back for it. -/
theorem ofChars?_toFixed (hcarries : f.Carries places) (x : Binary f) :
    ofChars? f (x.toFixed places).toList = some (x.reread places) := by
  cases x with
  | nan =>
    show ofChars? f "NaN".toList = some nan
    rfl
  | number negative m =>
    rcases finite_or_infinite m with hfinite | rfl
    · obtain ⟨digit, rest, htext, hdigit⟩ :=
        Decimal.exists_digit_writeFixed places (m.lastPlaces places)
      have hread := Decimal.ofChars?_writeFixed places (m.lastPlaces places)
      rw [htext] at hread
      unfold ofChars?
      rw [toFixed_finite places negative hfinite, String.toList_append, htext,
        splitSign_signText negative hdigit]
      dsimp only
      rw [if_neg (word_ne hdigit rest (by simp)), if_neg ?_, hread]
      · show some (ofDecimal f negative (m.lastPlaces places) (-(places : Int))) = _
        rw [ofDecimal_places hcarries.places_le, reread_finite places negative hfinite]
        rfl
      · rintro (hword | hword)
        · exact word_ne hdigit rest (by simp) hword
        · exact word_ne hdigit rest (by simp) hword
    · rw [reread_infinite, toFixed_infinite]
      cases negative <;> rfl

end Binary

end LayerQuant
