import Mathlib
import LayerQuant.Config.Basic
import LayerQuant.Edge.Basic
import LayerQuant.Proofs.Construction
import LayerQuant.Proofs.Unsigned

/-!
# The scale of a range

What a validated configuration guarantees about its rule from ranges to scales: above the least
range the scale is a finite number without a sign, and a larger range never has a larger scale. The
divisor is at least one and the scale at most the largest level, and only a range that is infinite
once it is widened has the scale zero (`ScaleRule.Proper`).
-/

namespace LayerQuant

open Binary

namespace ScaleRule

/-- The settings of the rule are in their ranges. -/
structure Usable (rule : ScaleRule) : Prop where
  guardband_finite : rule.guardband.isFinite = true
  one_le_guardband : .ofNat .single 1 ≤ rule.guardband
  two_le_bits : 2 ≤ rule.activationBits
  bits_le : rule.activationBits ≤ 16
  zero_le_minRange : .zero ≤ rule.minRange

variable {rule : ScaleRule} {range other : Single}

/-- The largest level is positive, and finite also when it is divided by one. -/
theorem Usable.maxLevel (h : rule.Usable) :
    .zero < rule.maxLevel ∧ rule.maxLevel.isFinite = true ∧
      (rule.maxLevel / .ofNat .single 1).isFinite = true := by
  have hlow := h.two_le_bits
  have hhigh := h.bits_le
  unfold ScaleRule.maxLevel
  generalize rule.activationBits = bits at hlow hhigh
  interval_cases bits <;> decide +kernel

theorem Usable.zero_lt_guardband (h : rule.Usable) : .zero < rule.guardband :=
  lt_of_lt_of_le' (by decide +kernel) h.one_le_guardband

theorem Usable.zero_lt (h : rule.Usable) (hrange : rule.minRange < range) : .zero < range :=
  lt_of_le_of_lt' h.zero_le_minRange hrange

/-- The number one has as many units as its format says. -/
theorem units_one : (Magnitude.round .single (1 * Format.single.one) 1).units =
    Format.single.one := by
  decide +kernel

/-- Widening does not bring a positive range down to zero. -/
theorem zero_lt_mul {a b : Single} (ha : .zero < a) (hb : .ofNat .single 1 ≤ b) :
    .zero < a * b := by
  have hone : (.zero : Single) < .ofNat .single 1 := by decide +kernel
  obtain ⟨m, rfl, hm⟩ := exists_of_pos ha
  obtain ⟨m', rfl, hm'⟩ := exists_of_pos (lt_of_lt_of_le' hone hb)
  have hunits : Format.single.one ≤ m'.units := by
    rw [← units_one]
    exact Magnitude.units_mono (number_false_le.1 hb)
  rw [mul_number]
  split
  · rw [if_neg (by simp [hm.ne', hm'.ne'])]
    exact zero_lt_number.2 (by decide +kernel)
  · refine zero_lt_number.2 (Magnitude.round_pos (by decide +kernel) Format.single.one_pos ?_)
    exact hunits.trans (Nat.le_mul_of_pos_left _ (Magnitude.units_pos hm))

/-- The ceiling that divides the largest level is a number without a sign that is at least one. -/
theorem Usable.divisor (h : rule.Usable) (hrange : .zero < range) :
    (range * rule.guardband).ceil.Unsigned ∧
      .ofNat .single 1 ≤ (range * rule.guardband).ceil := by
  have hproduct := zero_lt_mul hrange h.one_le_guardband
  exact ⟨unsigned_ceil (unsigned_of_pos hproduct), one_le_ceil hproduct⟩

theorem Usable.unsigned_scaleFor (h : rule.Usable) (hrange : .zero < range) :
    (rule.scaleFor range).Unsigned :=
  unsigned_div (unsigned_of_pos h.maxLevel.1) (h.divisor hrange).1

/-- The scale of a positive range is finite. -/
theorem Usable.isFinite_scaleFor (h : rule.Usable) (hrange : .zero < range) :
    (rule.scaleFor range).isFinite = true := by
  obtain ⟨hlevel, hfinite, hquotient⟩ := h.maxLevel
  refine isFinite_of_le (h.unsigned_scaleFor hrange) hquotient ?_
    (unsigned_div (unsigned_of_pos hlevel) unsigned_ofNat)
  exact div_anti hlevel hfinite unsigned_ofNat (h.divisor hrange).1 (h.divisor hrange).2

/-- A larger range has no larger scale. -/
theorem Usable.scaleFor_anti (h : rule.Usable) (hrange : .zero < range) (hle : range ≤ other) :
    rule.scaleFor other ≤ rule.scaleFor range := by
  have hother := lt_of_lt_of_le' hrange hle
  refine div_anti h.maxLevel.1 h.maxLevel.2.1 (h.divisor hrange).1 (h.divisor hother).1 ?_
  refine ceil_mono (unsigned_of_pos (zero_lt_mul hrange h.one_le_guardband))
    (unsigned_of_pos (zero_lt_mul hother h.one_le_guardband)) ?_
  exact mul_le_mul_left' (unsigned_of_pos hrange) (unsigned_of_pos hother)
    (unsigned_of_pos h.zero_lt_guardband) hle (isNaN_mul_of_pos hrange h.zero_lt_guardband)
    (isNaN_mul_of_pos hother h.zero_lt_guardband)

/-- The largest level is not exceeded by dividing it by one, and is not brought down to zero by the
largest divisor that is finite. -/
theorem Usable.maxLevel_div (h : rule.Usable) :
    rule.maxLevel / .ofNat .single 1 ≤ rule.maxLevel ∧
      .zero < rule.maxLevel / (largest .single).ceil := by
  have hlow := h.two_le_bits
  have hhigh := h.bits_le
  unfold ScaleRule.maxLevel
  generalize rule.activationBits = bits at hlow hhigh
  interval_cases bits <;> decide +kernel

/-- The scale of a positive range is at most the largest level. -/
theorem Usable.scaleFor_le (h : rule.Usable) (hrange : .zero < range) :
    rule.scaleFor range ≤ rule.maxLevel := by
  obtain ⟨hlevel, hfinite, _⟩ := h.maxLevel
  obtain ⟨hdivisor, hone⟩ := h.divisor hrange
  exact le_trans' (div_anti hlevel hfinite unsigned_ofNat hdivisor hone) h.maxLevel_div.1

/-- As long as the widened range is finite, its scale is positive. -/
theorem Usable.zero_lt_scaleFor (h : rule.Usable) (hrange : .zero < range)
    (hproduct : (range * rule.guardband).isFinite = true) : .zero < rule.scaleFor range := by
  obtain ⟨hlevel, hfinite, _⟩ := h.maxLevel
  have hwidened := unsigned_of_pos (zero_lt_mul hrange h.one_le_guardband)
  have hlargest : (largest .single).Unsigned := unsigned_number
  refine lt_of_lt_of_le' h.maxLevel_div.2 ?_
  refine div_anti hlevel hfinite (h.divisor hrange).1 (unsigned_ceil hlargest) ?_
  exact ceil_mono hwidened hlargest (hwidened.le_largest hproduct)

/-- The scale of a positive range is zero exactly if the widened range is infinite. -/
theorem Usable.scaleFor_eq_zero (h : rule.Usable) (hrange : .zero < range) :
    (rule.scaleFor range).sameNumber .zero = true ↔ range * rule.guardband = .infinity := by
  have hwidened := zero_lt_mul hrange h.one_le_guardband
  obtain ⟨hlevel, hfinite, _⟩ := h.maxLevel
  constructor
  · intro hzero
    refine ((unsigned_of_pos hwidened).finite_or_infinity
      (number_of_lt_right hwidened)).resolve_left fun hproduct => ?_
    exact not_lt_of_le' (sameNumber_iff.1 hzero).1 (h.zero_lt_scaleFor hrange hproduct)
  · intro hinfinite
    rw [scaleFor, hinfinite, ceil_infinity, div_infinity hlevel hfinite]
    rfl

/-- The scale of a range is positive exactly if the widened range is not infinite. -/
theorem Usable.zero_lt_scaleFor_iff (h : rule.Usable) (hrange : .zero < range) :
    .zero < rule.scaleFor range ↔ range * rule.guardband ≠ .infinity := by
  have hunsigned := h.unsigned_scaleFor hrange
  have hnumber := number_of_le_left (h.scaleFor_le hrange)
  rw [ne_eq, ← h.scaleFor_eq_zero hrange, sameNumber_iff]
  constructor
  · exact fun hpositive hsame => not_lt_of_le' hsame.1 hpositive
  · exact fun hother => lt_of_not_le' hnumber rfl fun hle =>
      hother ⟨hle, hunsigned.zero_le hnumber⟩

/-- The scale of a range comes from a division by at least one. It is a number from zero up to the
largest level, and it is zero only if the widened range is infinite. -/
structure Proper (rule : ScaleRule) (range : Single) : Prop where
  one_le_divisor : .ofNat .single 1 ≤ (range * rule.guardband).ceil
  divisor_ne_zero : (range * rule.guardband).ceil.sameNumber .zero = false
  number : (rule.scaleFor range).isNaN = false
  zero_le : .zero ≤ rule.scaleFor range
  le_maxLevel : rule.scaleFor range ≤ rule.maxLevel
  zero_iff : (rule.scaleFor range).sameNumber .zero = true ↔
    range * rule.guardband = .infinity

/-- Every range above the least one has a proper scale. -/
theorem Usable.proper (h : rule.Usable) (hrange : rule.minRange < range) : rule.Proper range := by
  have hpositive := h.zero_lt hrange
  have hone := (h.divisor hpositive).2
  have hle := h.scaleFor_le hpositive
  have hnumber := number_of_le_left hle
  refine ⟨hone, ?_, hnumber, (h.unsigned_scaleFor hpositive).zero_le hnumber, hle,
    h.scaleFor_eq_zero hpositive⟩
  rw [← Bool.not_eq_true, sameNumber_iff]
  rintro ⟨hzero, _⟩
  exact not_lt_of_le' hzero (lt_of_lt_of_le' (by decide +kernel) hone)

end ScaleRule

namespace Edge

variable {edge : Edge} {rule : ScaleRule} {scale : Single}

/-- A range-derived scale is the scale of an aggregated range above the least one. -/
theorem rangeScale?_eq_some : edge.rangeScale? rule = some scale ↔
    ∃ range, edge.aggregated? = some range ∧ rule.minRange < range ∧
      rule.scaleFor range = scale := by
  unfold rangeScale?
  cases edge.aggregated? with
  | none => simp
  | some range =>
      by_cases hrange : rule.minRange < range
      · simp [hrange]
      · simp [hrange]

/-- Range-derived scales are finite and have no sign. -/
theorem rangeScale?_usable (hrule : rule.Usable) (h : edge.rangeScale? rule = some scale) :
    scale.Unsigned ∧ scale.isFinite = true := by
  obtain ⟨range, _, hrange, rfl⟩ := rangeScale?_eq_some.1 h
  exact ⟨hrule.unsigned_scaleFor (hrule.zero_lt hrange),
    hrule.isFinite_scaleFor (hrule.zero_lt hrange)⟩

/-- Range-derived scales are numbers. -/
theorem rangeScale?_number (hrule : rule.Usable) (h : edge.rangeScale? rule = some scale) :
    scale.isNaN = false :=
  number_of_isFinite (rangeScale?_usable hrule h).2

end Edge

namespace Config

variable {config : Config}

/-- What validation guarantees for the derivation of scales. -/
structure Usable (config : Config) : Prop where
  rule : config.scaleRule.Usable
  zero_lt_default : .zero < config.defaultScale
  default_finite : config.defaultScale.isFinite = true

/-- A configuration that passes validation is usable. -/
theorem usable_of_validate (h : config.validate = .ok ()) : config.Usable := by
  simp only [validate, bind, Except.bind, throw, throwThe, MonadExceptOf.throw, pure,
    Except.pure, ite_error_eq_ok, Bool.or_eq_true, Bool.not_eq_true', decide_eq_true_eq,
    not_or, Bool.not_eq_false, Bool.not_eq_true] at h
  obtain ⟨⟨hfinite, hguardband⟩, ⟨hlow, hhigh⟩, _, ⟨hnumber, hrange⟩, ⟨hdefault, hpositive⟩, _⟩ := h
  exact {
    rule := {
      guardband_finite := hfinite
      one_le_guardband := le_of_not_lt' rfl (number_of_isFinite hfinite) hguardband
      two_le_bits := Nat.le_of_not_lt hlow
      bits_le := Nat.le_of_not_lt hhigh
      zero_le_minRange := le_of_not_lt' rfl hnumber hrange }
    zero_lt_default := lt_of_not_le' (number_of_isFinite hdefault) rfl hpositive
    default_finite := hdefault }

/-- Under a configuration that passes validation, every range above the least one has a proper
scale, and a larger range never has a larger scale. Whatever scale is derived from the range of a
tensor is the scale of such a range. -/
theorem scaleFor_proper_antitone (hvalid : config.validate = .ok ()) :
    (∀ range, config.minRange < range → config.scaleRule.Proper range) ∧
      (∀ range other, config.minRange < range → range ≤ other →
        config.scaleRule.scaleFor other ≤ config.scaleRule.scaleFor range) ∧
      ∀ (edge : Edge) (scale : Single), edge.rangeScale? config.scaleRule = some scale →
        ∃ range, edge.aggregated? = some range ∧ config.scaleRule.Proper range ∧
          config.scaleRule.scaleFor range = scale := by
  have hrule := (usable_of_validate hvalid).rule
  refine ⟨fun range hrange => hrule.proper hrange, fun range other hrange hle => ?_, ?_⟩
  · exact hrule.scaleFor_anti (hrule.zero_lt hrange) hle
  · intro edge scale hscale
    obtain ⟨range, haggregated, hrange, heq⟩ := Edge.rangeScale?_eq_some.1 hscale
    exact ⟨range, haggregated, hrule.proper hrange, heq⟩

/-- With no least range to speak of, the smallest positive range has the largest level as its scale.
The largest finite range, widened by a quarter, is infinite, and has the scale zero. -/
theorem extreme_ranges_proper :
    let config : Config := { minRange := .zero }
    let smallest : Single := .ofUnits .single false 1 1
    config.validate = .ok () ∧ .zero < smallest ∧ smallest ≤ largest .single ∧
      config.scaleRule.Proper smallest ∧ config.scaleRule.Proper (largest .single) ∧
      config.scaleRule.scaleFor smallest = config.scaleRule.maxLevel ∧
      (config.scaleRule.scaleFor (largest .single)).sameNumber .zero = true ∧
      config.scaleRule.scaleFor (largest .single) ≤ config.scaleRule.scaleFor smallest := by
  intro config smallest
  have hvalid : config.validate = .ok () := by decide +kernel
  have hsmallest : config.minRange < smallest := by decide +kernel
  have hle : smallest ≤ largest .single := by decide +kernel
  obtain ⟨hproper, hanti, _⟩ := scaleFor_proper_antitone hvalid
  have hlargest := hproper _ (lt_of_lt_of_le' hsmallest hle)
  exact ⟨hvalid, hsmallest, hle, hproper _ hsmallest, hlargest, by decide +kernel,
    hlargest.zero_iff.2 (by decide +kernel), hanti _ _ hsmallest hle⟩

end Config

end LayerQuant
