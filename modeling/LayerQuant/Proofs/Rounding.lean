import Mathlib
import LayerQuant.Binary.Arithmetic

/-!
# Rounding keeps the order

A magnitude is known by its number in order of size, so the facts about rounding that later modules
need are inequalities between natural numbers. `Magnitude.units_mono` says that a larger number is a
larger value, and `Magnitude.round_mono` that rounding never reverses the order of two fractions.
Read `unclamped_mono` first: it is `round_mono` before the cut at infinity.
-/

namespace LayerQuant

variable {f : Format}

/-- A power of two, as the formats write it, is positive. -/
theorem pow_two_pos (k : Nat) : 0 < Nat.pow 2 k := Nat.pow_pos (by decide)

/-- A binade has at least one magnitude. -/
theorem Format.binade_pos (f : Format) : 0 < f.binade := pow_two_pos f.fractionBits

/-- One is a positive number of units. -/
theorem Format.one_pos (f : Format) : 0 < f.one := pow_two_pos f.unitBits

/-- Rounding to an integer changes a fraction by less than one. -/
theorem roundHalfEven_bounds (num den : Nat) :
    num / den ≤ roundHalfEven num den ∧ roundHalfEven num den ≤ num / den + 1 := by
  unfold roundHalfEven
  dsimp only
  split <;> omega

/-- Rounding to an integer keeps the order of two fractions. -/
theorem roundHalfEven_mono {num den num' den' : Nat} (hden : 0 < den) (hden' : 0 < den')
    (h : num * den' ≤ num' * den) : roundHalfEven num den ≤ roundHalfEven num' den' := by
  have hquotient : num / den ≤ num' / den' := by
    rw [Nat.le_div_iff_mul_le hden']
    have hfloor : num / den * den ≤ num := Nat.div_mul_le_self num den
    have hscaled : num / den * den' * den ≤ num' * den := by
      calc num / den * den' * den = num / den * den * den' := Nat.mul_right_comm _ _ _
        _ ≤ num * den' := Nat.mul_le_mul_right _ hfloor
        _ ≤ num' * den := h
    exact Nat.le_of_mul_le_mul_right hscaled hden
  rcases Nat.lt_or_eq_of_le hquotient with hlt | heq
  · have := (roundHalfEven_bounds num den).2
    have := (roundHalfEven_bounds num' den').1
    omega
  · -- Equal whole parts: the remainders decide, and they compare as the fractions do.
    have hrest : num % den * den' ≤ num' % den' * den := by
      have hnum := Nat.div_add_mod num den
      have hnum' := Nat.div_add_mod num' den'
      rw [← hnum, ← hnum', ← heq] at h
      nlinarith
    unfold roundHalfEven
    rw [← heq]
    dsimp only
    split
    · rename_i hup
      rw [if_pos]
      rcases hup with hup | ⟨htie, hodd⟩
      · exact Or.inl (by nlinarith)
      · obtain hover | hexact := Nat.lt_or_eq_of_le
          (show den' ≤ 2 * (num' % den') by nlinarith)
        · exact Or.inl hover
        · exact Or.inr ⟨hexact.symm, hodd⟩
    · split <;> omega

namespace Magnitude

/-- A magnitude is known by its number. -/
theorem eq_of_ordinal {m m' : Magnitude f} (h : m.ordinal = m'.ordinal) : m = m' := by
  cases m
  congr 1

/-- The units of the magnitude with the given number, also beyond infinity. -/
def unitsAt (f : Format) (ordinal : Nat) : Nat :=
  if ordinal < f.binade then ordinal
  else (f.binade + ordinal % f.binade) * Nat.pow 2 (ordinal / f.binade - 1)

/-- The units of a magnitude are those of its number. -/
theorem units_eq (m : Magnitude f) : m.units = unitsAt f m.ordinal := rfl

/-- A significand of up to two binades, behind so many binades, is worth its value shifted so many
places. Two full binades are the first significand of the next shift. -/
theorem unitsAt_eq {shift significand : Nat} (hle : significand ≤ 2 * f.binade)
    (hfull : shift = 0 ∨ f.binade ≤ significand) :
    unitsAt f (shift * f.binade + significand) = significand * Nat.pow 2 shift := by
  have hbinade := f.binade_pos
  unfold unitsAt
  by_cases hlow : significand < f.binade
  · obtain rfl : shift = 0 := by omega
    rw [Nat.zero_mul, Nat.zero_add, if_pos hlow]
    exact (Nat.mul_one significand).symm
  · obtain ⟨rest, rfl⟩ := Nat.exists_eq_add_of_le (Nat.le_of_not_lt hlow)
    have hnot : ¬ shift * f.binade + (f.binade + rest) < f.binade := by omega
    rw [if_neg hnot]
    by_cases hrest : rest < f.binade
    · have hsplit : shift * f.binade + (f.binade + rest) = rest + f.binade * (shift + 1) := by ring
      rw [hsplit, Nat.add_mul_mod_self_left, Nat.add_mul_div_left _ _ hbinade,
        Nat.mod_eq_of_lt hrest, Nat.div_eq_of_lt hrest, Nat.zero_add, Nat.add_sub_cancel]
    · obtain rfl : rest = f.binade := by omega
      have hsplit : shift * f.binade + (f.binade + f.binade) = f.binade * (shift + 2) := by ring
      rw [hsplit, Nat.mul_mod_right, Nat.mul_div_right _ hbinade]
      show (f.binade + 0) * 2 ^ (shift + 1) = (f.binade + f.binade) * 2 ^ shift
      ring

/-- Every magnitude has a significand below two binades, which fills a binade once it is shifted. -/
theorem exists_significand (f : Format) (ordinal : Nat) : ∃ shift significand,
    ordinal = shift * f.binade + significand ∧ significand < 2 * f.binade ∧
      (shift = 0 ∨ f.binade ≤ significand) := by
  have hbinade := f.binade_pos
  by_cases hlow : ordinal < f.binade
  · exact ⟨0, ordinal, by omega, by omega, Or.inl rfl⟩
  · obtain ⟨rest, rfl⟩ := Nat.exists_eq_add_of_le (Nat.le_of_not_lt hlow)
    have hmod := Nat.mod_lt rest hbinade
    have hdiv := Nat.div_add_mod rest f.binade
    refine ⟨rest / f.binade, f.binade + rest % f.binade, ?_, by omega, Or.inr (by omega)⟩
    rw [Nat.mul_comm]
    omega

/-- From a significand to the next one the value grows by the last place. -/
theorem unitsAt_succ {shift significand : Nat} (hlt : significand < 2 * f.binade)
    (hfull : shift = 0 ∨ f.binade ≤ significand) :
    unitsAt f (shift * f.binade + significand + 1) =
      unitsAt f (shift * f.binade + significand) + Nat.pow 2 shift := by
  rw [Nat.add_assoc, unitsAt_eq (by omega) (by omega), unitsAt_eq (by omega) hfull]
  exact Nat.succ_mul significand _

/-- A larger number is a larger value. -/
theorem unitsAt_strictMono (f : Format) : StrictMono (unitsAt f) := by
  refine strictMono_nat_of_lt_succ fun ordinal => ?_
  obtain ⟨shift, significand, rfl, hlt, hfull⟩ := exists_significand f ordinal
  rw [unitsAt_succ hlt hfull]
  exact Nat.lt_add_of_pos_right (pow_two_pos shift)

/-- A larger number is at least as large a value. -/
theorem units_mono {m m' : Magnitude f} (h : m.ordinal ≤ m'.ordinal) : m.units ≤ m'.units :=
  (unitsAt_strictMono f).monotone h

/-- Only the magnitude zero has no units. -/
theorem units_pos {m : Magnitude f} (h : 0 < m.ordinal) : 0 < m.units := by
  have hbinade := f.binade_pos
  unfold units
  split
  · exact h
  · exact Nat.mul_pos (by omega) (pow_two_pos _)

/-- The magnitude zero has no units. -/
theorem units_zero {m : Magnitude f} (h : m.ordinal = 0) : m.units = 0 := by
  have hbinade := f.binade_pos
  simp [units, h, hbinade]

/-- The number that `round` finds before it cuts at infinity. -/
def unclamped (f : Format) (num den : Nat) : Nat :=
  let shift := (num / den).log2 - f.fractionBits
  shift * f.binade + roundHalfEven num (den * Nat.pow 2 shift)

/-- Rounding is `unclamped` cut at infinity. -/
theorem ordinal_round (f : Format) (num den : Nat) :
    (round f num den).ordinal = min (unclamped f num den) f.infinity := rfl

/-- The significand is at most two binades, whatever is rounded. -/
theorem significand_le (f : Format) (num den : Nat) :
    roundHalfEven num (den * Nat.pow 2 ((num / den).log2 - f.fractionBits)) ≤
      2 * f.binade := by
  have hbound := (roundHalfEven_bounds num
    (den * Nat.pow 2 ((num / den).log2 - f.fractionBits))).2
  rw [← Nat.div_div_eq_div_mul] at hbound
  have hlt : num / den / Nat.pow 2 ((num / den).log2 - f.fractionBits) < 2 * f.binade := by
    rw [Nat.div_lt_iff_lt_mul (pow_two_pos _)]
    calc num / den < Nat.pow 2 ((num / den).log2 + 1) := Nat.lt_log2_self
      _ ≤ Nat.pow 2 (f.fractionBits + 1 + ((num / den).log2 - f.fractionBits)) :=
          Nat.pow_le_pow_right (by decide) (by omega)
      _ = 2 * f.binade * Nat.pow 2 ((num / den).log2 - f.fractionBits) := by
          simp only [Format.binade, Nat.pow_eq, pow_add, pow_one]
          ring
  omega

/-- Once low bits are rounded away, what is rounded fills a binade of the shifted places. -/
theorem binade_le_shifted (f : Format) {num den : Nat} (h : f.fractionBits < (num / den).log2) :
    f.binade * Nat.pow 2 ((num / den).log2 - f.fractionBits) ≤ num / den := by
  have hne : num / den ≠ 0 := by
    intro hzero
    simp [hzero] at h
  calc f.binade * Nat.pow 2 ((num / den).log2 - f.fractionBits)
      = Nat.pow 2 (num / den).log2 := by
        simp only [Format.binade, Nat.pow_eq, ← pow_add]
        congr 1
        omega
    _ ≤ num / den := Nat.log2_self_le hne

/-- Once low bits are rounded away, the significand fills a binade. -/
theorem binade_le_significand (f : Format) (num den : Nat)
    (h : f.fractionBits < (num / den).log2) :
    f.binade ≤ roundHalfEven num (den * Nat.pow 2 ((num / den).log2 - f.fractionBits)) := by
  refine le_trans ?_ (roundHalfEven_bounds num
    (den * Nat.pow 2 ((num / den).log2 - f.fractionBits))).1
  rw [← Nat.div_div_eq_div_mul, Nat.le_div_iff_mul_le (pow_two_pos _)]
  exact binade_le_shifted f h

/-- Rounding keeps the order of two fractions, before the cut at infinity. -/
theorem unclamped_mono (f : Format) {num den num' den' : Nat} (hden : 0 < den)
    (hden' : 0 < den') (h : num * den' ≤ num' * den) :
    unclamped f num den ≤ unclamped f num' den' := by
  have hquotient : num / den ≤ num' / den' := by
    rw [Nat.le_div_iff_mul_le hden']
    refine Nat.le_of_mul_le_mul_right ?_ hden
    calc num / den * den' * den = num / den * den * den' := Nat.mul_right_comm _ _ _
      _ ≤ num * den' := Nat.mul_le_mul_right _ (Nat.div_mul_le_self num den)
      _ ≤ num' * den := h
  have hlog : (num / den).log2 ≤ (num' / den').log2 := by
    simp only [Nat.log2_eq_log_two]
    exact Nat.log_mono_right hquotient
  unfold unclamped
  dsimp only
  obtain hlt | heq := Nat.lt_or_eq_of_le
    (show (num / den).log2 - f.fractionBits ≤ (num' / den').log2 - f.fractionBits by omega)
  · -- The second significand starts where the first one can end.
    have hlow := significand_le f num den
    have hhigh := binade_le_significand f num' den' (by omega)
    nlinarith
  · rw [heq]
    refine Nat.add_le_add_left (roundHalfEven_mono ?_ ?_ ?_) _
    · exact Nat.mul_pos hden (pow_two_pos _)
    · exact Nat.mul_pos hden' (pow_two_pos _)
    · calc num * (den' * Nat.pow 2 _) = num * den' * Nat.pow 2 _ := (Nat.mul_assoc _ _ _).symm
        _ ≤ num' * den * Nat.pow 2 _ := Nat.mul_le_mul_right _ h
        _ = num' * (den * Nat.pow 2 _) := Nat.mul_assoc _ _ _

/-- Rounding keeps the order of two fractions. -/
theorem round_mono (f : Format) {num den num' den' : Nat} (hden : 0 < den) (hden' : 0 < den')
    (h : num * den' ≤ num' * den) : (round f num den).ordinal ≤ (round f num' den').ordinal := by
  rw [ordinal_round, ordinal_round]
  have := unclamped_mono f hden hden' h
  omega

/-- Zero is rounded to zero. -/
theorem round_zero (f : Format) {den : Nat} (hden : 0 < den) :
    (round f 0 den).ordinal = 0 := by
  have hzero : roundHalfEven 0 den = 0 := by
    simp [roundHalfEven, hden.ne]
  have hlog : Nat.log2 0 = 0 := by decide
  simp [ordinal_round, unclamped, hlog, hzero]

/-- What is at least one unit is not rounded to zero. -/
theorem round_pos {num den : Nat} (hinfinity : 0 < f.infinity) (hden : 0 < den)
    (h : den ≤ num) : 0 < (round f num den).ordinal := by
  have hquotient : 1 ≤ num / den := Nat.div_pos h hden
  rw [ordinal_round]
  refine Nat.lt_min.2 ⟨?_, hinfinity⟩
  unfold unclamped
  dsimp only
  by_cases hshift : (num / den).log2 ≤ f.fractionBits
  · rw [Nat.sub_eq_zero_of_le hshift]
    have := (roundHalfEven_bounds num (den * Nat.pow 2 0)).1
    simp only [Nat.pow_eq, pow_zero, mul_one] at this ⊢
    omega
  · have := binade_le_significand f num den (by omega)
    have := f.binade_pos
    omega

end Magnitude

end LayerQuant
