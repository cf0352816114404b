import Mathlib
import LayerQuant.Proofs.Rounding

/-!
# Rounding finds the nearest magnitude

`Magnitude.Nearest` says what the nearest magnitude is, without saying how it is found. Rounding finds
it as long as the result is finite (`nearest_round`): the rounded significand is nearest among the
multiples of the last place, and the magnitudes on both sides are no closer than the last place.
Read `unclamped_nearest` first.
-/

namespace LayerQuant

variable {f : Format} {num den : Nat}

/-- Rounding to an integer is off by at most a half, and by a half only if it finds an even one. -/
theorem roundHalfEven_dist (num : Nat) (hden : 0 < den) :
    2 * Nat.dist (roundHalfEven num den * den) num ≤ den ∧
      (2 * Nat.dist (roundHalfEven num den * den) num = den → roundHalfEven num den % 2 = 0) := by
  have hnum := Nat.div_add_mod num den
  have hmod := Nat.mod_lt num hden
  rw [Nat.mul_comm] at hnum
  unfold roundHalfEven Nat.dist
  dsimp only
  split
  · rename_i hup
    rw [Nat.succ_mul (num / den) den]
    generalize num / den * den = floor at hnum
    refine ⟨by omega, ?_⟩
    intro htie
    omega
  · rename_i hdown
    generalize num / den * den = floor at hnum
    refine ⟨by omega, ?_⟩
    intro htie
    omega

/-- Whatever integer is off by less than a half, or even and off by a half, is the one found. -/
theorem roundHalfEven_eq {found : Nat} (hden : 0 < den) (hle : 2 * Nat.dist (found * den) num ≤ den)
    (htie : 2 * Nat.dist (found * den) num = den → found % 2 = 0) :
    roundHalfEven num den = found := by
  obtain ⟨hround, hroundTie⟩ := roundHalfEven_dist num hden
  generalize roundHalfEven num den = rounded at hround hroundTie
  unfold Nat.dist at *
  rcases Nat.lt_trichotomy rounded found with hlt | heq | hlt
  · -- Two different integers are both off by a half, so both are even and yet next to each other.
    obtain ⟨rest, rfl⟩ := Nat.exists_eq_add_of_lt hlt
    have hexpand : (rounded + rest + 1) * den = rounded * den + rest * den + den := by ring
    rw [hexpand] at hle htie
    have hnext : rest * den = 0 := by omega
    have hrest : rest = 0 := (Nat.mul_eq_zero.1 hnext).resolve_right hden.ne'
    subst hrest
    omega
  · exact heq
  · obtain ⟨rest, rfl⟩ := Nat.exists_eq_add_of_lt hlt
    have hexpand : (found + rest + 1) * den = found * den + rest * den + den := by ring
    rw [hexpand] at hround hroundTie
    have hnext : rest * den = 0 := by omega
    have hrest : rest = 0 := (Nat.mul_eq_zero.1 hnext).resolve_right hden.ne'
    subst hrest
    omega

namespace Magnitude

/-! ## Before the cut at infinity -/

/-- The parts of a rounding: the significand that is found, shifted, is the magnitude that is
found, and it is off by at most half a last place. -/
structure Found (f : Format) (num den shift significand : Nat) : Prop where
  unclamped_eq : unclamped f num den = shift * f.binade + significand
  le : significand ≤ 2 * f.binade
  full : shift = 0 ∨ f.binade ≤ significand
  dist_le : 2 * Nat.dist (significand * Nat.pow 2 shift * den) num ≤ Nat.pow 2 shift * den
  tie : 2 * Nat.dist (significand * Nat.pow 2 shift * den) num = Nat.pow 2 shift * den →
    significand % 2 = 0
  /-- Only a fraction that fills a binade is shifted. -/
  filled : shift = 0 ∨ f.binade * Nat.pow 2 shift * den ≤ num

theorem exists_found (f : Format) (num : Nat) (hden : 0 < den) :
    ∃ shift significand, Found f num den shift significand := by
  have hplace : ∀ significand shift,
      significand * (den * Nat.pow 2 shift) = significand * Nat.pow 2 shift * den := by
    intro significand shift
    ring
  obtain ⟨hdist, htie⟩ := roundHalfEven_dist num
    (Nat.mul_pos hden (pow_two_pos ((num / den).log2 - f.fractionBits)))
  rw [hplace] at hdist htie
  have hlast := Nat.mul_comm den (Nat.pow 2 ((num / den).log2 - f.fractionBits))
  by_cases hshift : f.fractionBits < (num / den).log2
  · have hfilled := Nat.mul_le_mul_right den (binade_le_shifted f hshift)
    exact ⟨_, _, rfl, significand_le f num den, Or.inr (binade_le_significand f num den hshift),
      hdist.trans_eq hlast, fun heq => htie (heq.trans hlast.symm),
      Or.inr (hfilled.trans (Nat.div_mul_le_self num den))⟩
  · have hzero := Nat.sub_eq_zero_of_le (Nat.le_of_not_lt hshift)
    exact ⟨_, _, rfl, significand_le f num den, Or.inl hzero,
      hdist.trans_eq hlast, fun heq => htie (heq.trans hlast.symm), Or.inl hzero⟩

/-- The magnitude above the one that is found is at least a last place larger. -/
theorem Found.above {shift significand : Nat} (h : Found f num den shift significand) :
    unitsAt f (unclamped f num den) + Nat.pow 2 shift ≤
      unitsAt f (unclamped f num den + 1) := by
  rw [h.unclamped_eq]
  rcases Nat.lt_or_eq_of_le h.le with hlt | heq
  · exact (unitsAt_succ hlt h.full).ge
  · -- Two full binades are the first significand of the next shift.
    have hbinade := f.binade_pos
    have hcarry : shift * f.binade + significand = (shift + 1) * f.binade + f.binade := by
      rw [heq]
      ring
    have hstep : Nat.pow 2 shift ≤ Nat.pow 2 (shift + 1) :=
      Nat.pow_le_pow_right (by decide) (Nat.le_succ shift)
    rw [hcarry, unitsAt_succ (by omega) (Or.inr le_rfl)]
    exact Nat.add_le_add_left hstep _

/-- If the magnitude that is found is too large, the one below it is a last place smaller. -/
theorem Found.below {shift significand : Nat} (h : Found f num den shift significand)
    (hlarge : num < unitsAt f (unclamped f num den) * den) :
    ∃ ordinal, unclamped f num den = ordinal + 1 ∧
      unitsAt f (unclamped f num den) = unitsAt f ordinal + Nat.pow 2 shift := by
  have hunits : unitsAt f (unclamped f num den) = significand * Nat.pow 2 shift := by
    rw [h.unclamped_eq, unitsAt_eq h.le h.full]
  have hpositive : 0 < significand := by
    rcases Nat.eq_zero_or_pos significand with hzero | hpositive
    · rw [hunits, hzero, Nat.zero_mul, Nat.zero_mul] at hlarge
      omega
    · exact hpositive
  have hfull : shift = 0 ∨ f.binade ≤ significand - 1 := by
    rcases h.filled with hzero | hfilled
    · exact Or.inl hzero
    · -- The fraction fills a binade, so a larger significand is more than a binade.
      rw [hunits] at hlarge
      have hlt : f.binade * Nat.pow 2 shift * den < significand * Nat.pow 2 shift * den :=
        hfilled.trans_lt hlarge
      have hmore := Nat.lt_of_mul_lt_mul_right (Nat.lt_of_mul_lt_mul_right hlt)
      exact Or.inr (by omega)
  have hle := h.le
  have hordinal : unclamped f num den = shift * f.binade + (significand - 1) + 1 := by
    rw [h.unclamped_eq]
    omega
  exact ⟨_, hordinal, by rw [hordinal]; exact unitsAt_succ (by omega) hfull⟩

/-- No magnitude is closer to a fraction than the one that rounding finds, and another one that is
as close makes it an even one. -/
theorem unclamped_nearest (f : Format) (num : Nat) (hden : 0 < den) (ordinal : Nat) :
    Nat.dist (unitsAt f (unclamped f num den) * den) num ≤
        Nat.dist (unitsAt f ordinal * den) num ∧
      (0 < f.fractionBits → Nat.dist (unitsAt f ordinal * den) num =
          Nat.dist (unitsAt f (unclamped f num den) * den) num →
        ordinal = unclamped f num den ∨ unclamped f num den % 2 = 0) := by
  obtain ⟨shift, significand, h⟩ := exists_found f num hden
  have hunits : unitsAt f (unclamped f num den) = significand * Nat.pow 2 shift := by
    rw [h.unclamped_eq, unitsAt_eq h.le h.full]
  have hdist := h.dist_le
  have htie := h.tie
  rw [← hunits] at hdist htie
  have heven : 0 < f.fractionBits → significand % 2 = 0 → unclamped f num den % 2 = 0 := by
    intro hbits hsignificand
    obtain ⟨rest, hrest⟩ : 2 ∣ f.binade := dvd_pow_self 2 hbits.ne'
    have hdouble : shift * (2 * rest) = 2 * (shift * rest) := Nat.mul_left_comm _ _ _
    rw [h.unclamped_eq, hrest, hdouble]
    omega
  rcases Nat.lt_trichotomy ordinal (unclamped f num den) with hlt | heq | hlt
  · by_cases hlarge : num < unitsAt f (unclamped f num den) * den
    · obtain ⟨below, hbelow, hplace⟩ := h.below hlarge
      have hordinal := (unitsAt_strictMono f).monotone (show ordinal ≤ below by omega)
      have hfar := Nat.mul_le_mul_right den
        ((Nat.add_le_add_right hordinal (Nat.pow 2 shift)).trans_eq hplace.symm)
      rw [Nat.add_mul] at hfar
      unfold Nat.dist at *
      exact ⟨by omega, fun hbits hequal => Or.inr (heven hbits (htie (by omega)))⟩
    · have hfar := Nat.mul_lt_mul_of_pos_right (unitsAt_strictMono f hlt) hden
      unfold Nat.dist at *
      exact ⟨by omega, fun _ hequal => absurd hequal (by omega)⟩
  · rw [heq]
    exact ⟨le_rfl, fun _ _ => Or.inl rfl⟩
  · have hordinal := (unitsAt_strictMono f).monotone hlt
    have hfar := Nat.mul_le_mul_right den (h.above.trans hordinal)
    rw [Nat.add_mul] at hfar
    unfold Nat.dist at *
    exact ⟨by omega, fun hbits hequal => Or.inr (heven hbits (htie (by omega)))⟩

/-- A fraction that is a magnitude is rounded to it. -/
theorem unclamped_unitsAt (f : Format) (ordinal : Nat) (hden : 0 < den) :
    unclamped f (unitsAt f ordinal * den) den = ordinal := by
  have hdist := (unclamped_nearest f (unitsAt f ordinal * den) hden ordinal).1
  rw [Nat.dist_self] at hdist
  have hequal := Nat.eq_of_dist_eq_zero (Nat.le_zero.1 hdist)
  exact (unitsAt_strictMono f).injective (Nat.eq_of_mul_eq_mul_right hden hequal)

/-- A magnitude is rounded to itself. -/
theorem ordinal_round_units (m : Magnitude f) {den : Nat} (hden : 0 < den) :
    (round f (m.units * den) den).ordinal = m.ordinal := by
  rw [ordinal_round, units_eq, unclamped_unitsAt _ _ hden]
  exact Nat.min_eq_left m.le_infinity

/-! ## Finite magnitudes -/

/-- The magnitude is finite and no finite magnitude is closer to `num / den` units. If another one
is equally near, this is the even one. -/
structure Nearest (m : Magnitude f) (num den : Nat) : Prop where
  finite : m.ordinal < f.infinity
  dist_le (other : Magnitude f) (hother : other.ordinal < f.infinity) :
    Nat.dist (m.units * den) num ≤ Nat.dist (other.units * den) num
  even (other : Magnitude f) (hother : other.ordinal < f.infinity)
    (htie : Nat.dist (other.units * den) num = Nat.dist (m.units * den) num) :
    other = m ∨ m.ordinal % 2 = 0

/-- A fraction that stays below infinity is rounded to the nearest magnitude. -/
theorem nearest_round (hbits : 0 < f.fractionBits) (hden : 0 < den)
    (hfinite : unclamped f num den < f.infinity) : (round f num den).Nearest num den := by
  have hordinal : (round f num den).ordinal = unclamped f num den := by
    rw [ordinal_round, Nat.min_eq_left hfinite.le]
  refine ⟨?_, ?_, ?_⟩
  · rw [hordinal]
    exact hfinite
  · intro other _
    rw [units_eq, units_eq, hordinal]
    exact (unclamped_nearest f num hden other.ordinal).1
  · intro other _ htie
    rw [units_eq, units_eq, hordinal] at htie
    rw [hordinal]
    refine ((unclamped_nearest f num hden other.ordinal).2 hbits htie).imp_left ?_
    intro hsame
    exact eq_of_ordinal (hsame.trans hordinal.symm)

end Magnitude

end LayerQuant
