import Mathlib
import LayerQuant.Proofs.Nearest
import LayerQuant.Proofs.SoundSweep

/-!
# Products and quotients of scales

A scale is multiplied by a weight scale or divided by another scale, and each result is rounded.
Here are the bounds that survive rounding: a factor of at least one does not lower a scale and one of
at most one does not raise it, and what a limit is divided by gives no more than the weight scale
whose product exceeded the limit (`limited_le_weightScale`).
-/

namespace LayerQuant

namespace Binary

variable {f : Format} {a b c w limit input scale : Binary f}

theorem mul_comm' (ha : a.Unsigned) (hb : b.Unsigned) : a * b = b * a := by
  cases a with
  | nan =>
      cases b with
      | nan => rfl
      | number => rfl
  | number n m =>
      cases b with
      | nan => rfl
      | number n' m' =>
          cases n <;> cases n' <;> try contradiction
          rw [mul_number, mul_number, Bool.or_comm, Nat.mul_comm,
            Bool.or_comm (m.ordinal == 0)]

/-- Products that are numbers grow with the second factor. -/
theorem mul_le_mul_right' (ha : a.Unsigned) (hb : b.Unsigned) (hw : w.Unsigned) (h : a ≤ b)
    (hleft : (w * a).isNaN = false) (hright : (w * b).isNaN = false) : w * a ≤ w * b := by
  rw [mul_comm' hw ha] at hleft ⊢
  rw [mul_comm' hw hb] at hright ⊢
  exact mul_le_mul_left' ha hb hw h hleft hright

/-- A number times a positive finite one is a number. -/
theorem isNaN_mul_of_isFinite (hnumber : a.isNaN = false) (hw : zero < w)
    (hfinite : w.isFinite = true) : (a * w).isNaN = false := by
  obtain ⟨k, rfl, hk⟩ := exists_of_pos hw
  have hk' := isInfinite_eq_false.2 (isFinite_number.1 hfinite)
  cases a with
  | nan => cases hnumber
  | number n m =>
      have hmul : (number n m : Binary f) * number false k =
          if m.isInfinite || k.isInfinite then
            if m.ordinal == 0 || k.ordinal == 0 then nan else number n .infinite
          else ofUnits f n (m.units * k.units) f.one := by
        cases n <;> rfl
      rw [hmul, hk', Bool.or_false]
      cases hm : m.isInfinite with
      | true =>
          have hpositive : m.ordinal ≠ 0 := by
            rw [isInfinite_iff.1 hm]
            exact (hk.trans (isFinite_number.1 hfinite)).ne'
          simp [hpositive, hk.ne']
      | false => rfl

/-- What is below something is finite if neither has a sign. -/
theorem isFinite_of_lt (ha : a.Unsigned) (hb : b.Unsigned) (h : a < b) : a.isFinite = true := by
  refine (ha.finite_or_infinity (number_of_lt_left h)).resolve_right ?_
  rintro rfl
  exact not_lt_of_le' (hb.le_infinity (number_of_lt_right h)) h

/-- Quotients that are numbers grow with the dividend. -/
theorem div_le_div_right' (ha : a.Unsigned) (hb : b.Unsigned) (hc : c.Unsigned) (h : a ≤ b)
    (hleft : (a / c).isNaN = false) (hright : (b / c).isNaN = false) : a / c ≤ b / c := by
  have hunsigned := unsigned_div ha hc
  obtain ⟨m, rfl⟩ := ha.exists_number (number_of_le_left h)
  obtain ⟨m', rfl⟩ := hb.exists_number (number_of_le_right h)
  have hle := number_false_le.1 h
  cases c with
  | nan => cases hleft
  | number negative k =>
      cases negative with
      | true => exact hc.elim
      | false =>
          cases hm' : m'.isInfinite with
          | true =>
              have htop : (number false m' : Binary f) / number false k = infinity := by
                rw [div_number, hm', if_pos rfl] at hright ⊢
                split at hright
                · cases hright
                · rw [if_neg ‹_›]
              rw [htop]
              exact hunsigned.le_infinity hleft
          | false =>
              have hm := isInfinite_of_le hle hm'
              cases hk : k.isInfinite with
              | true =>
                  rw [div_number, div_number, hm, hm', hk]
                  exact number_false_le.2 le_rfl
              | false =>
                  by_cases hzero : k.ordinal = 0
                  · have htop : (number false m' : Binary f) / number false k = infinity := by
                      rw [div_number, hm', hk] at hright ⊢
                      simp only [Bool.false_eq_true, if_false, hzero, beq_self_eq_true, if_true]
                        at hright ⊢
                      split at hright
                      · cases hright
                      · rw [if_neg ‹_›]
                    rw [htop]
                    exact hunsigned.le_infinity hleft
                  · have hpositive := Magnitude.units_pos (Nat.pos_of_ne_zero hzero)
                    rw [div_number, div_number, hm, hm', hk]
                    simp only [Bool.false_eq_true, if_false, beq_iff_eq, hzero]
                    refine number_false_le.2 (Magnitude.round_mono f hpositive hpositive ?_)
                    exact Nat.mul_le_mul_right _ (Nat.mul_le_mul_right _ (Magnitude.units_mono hle))

/-- What is below a product, divided by one factor, is at most the other one, also after
rounding. -/
theorem div_le_of_lt_mul (hlimit : limit.Unsigned) (hinput : input.Unsigned)
    (hscale : scale.Unsigned) (h : limit < input * scale) : limit / input ≤ scale := by
  obtain ⟨l, rfl⟩ := hlimit.exists_number (number_of_lt_left h)
  have hproduct := number_of_lt_right h
  have hfactors : input.isNaN = false ∧ scale.isNaN = false := by
    cases input <;> cases scale <;> first | exact ⟨rfl, rfl⟩ | cases hproduct
  obtain ⟨i, rfl⟩ := hinput.exists_number hfactors.1
  obtain ⟨k, rfl⟩ := hscale.exists_number hfactors.2
  rw [mul_number] at h
  split at h
  · -- An infinite factor: the product is infinite, so the limit is finite.
    rename_i hinfinite
    split at h
    · exact absurd h not_lt_nan
    · rename_i hzero
      simp only [Bool.or_eq_true, beq_iff_eq, not_or] at hzero
      have hl := isInfinite_eq_false.2 (number_false_lt.1 h)
      rw [div_number, hl]
      cases hi : i.isInfinite with
      | true => exact number_false_le.2 (Nat.zero_le _)
      | false =>
          have hk : k.isInfinite = true := by simpa [hi] using hinfinite
          simp only [Bool.false_eq_true, if_false, beq_iff_eq, hzero.1]
          refine number_false_le.2 ?_
          rw [isInfinite_iff.1 hk]
          exact Magnitude.le_infinity _
  · rename_i hfinite
    obtain ⟨hi, hk⟩ := Bool.or_eq_false_iff.1 (Bool.not_eq_true _ ▸ hfinite)
    have hlt := number_false_lt.1 h
    have hl := isInfinite_eq_false.2 (hlt.trans_le (Magnitude.le_infinity _))
    have hpositive : 0 < i.ordinal := by
      refine Nat.pos_of_ne_zero fun hzero => ?_
      rw [Magnitude.units_zero hzero, Nat.zero_mul, Magnitude.round_zero f f.one_pos] at hlt
      omega
    have hunits : l.units * f.one ≤ k.units * i.units := by
      by_contra hlarge
      have hsmall : i.units * k.units ≤ l.units * f.one := by
        rw [Nat.mul_comm]
        omega
      have hle := Magnitude.round_mono f f.one_pos f.one_pos (Nat.mul_le_mul_right f.one hsmall)
      rw [l.ordinal_round_units f.one_pos] at hle
      omega
    rw [div_number, hl, hi]
    simp only [Bool.false_eq_true, if_false, beq_iff_eq, hpositive.ne']
    refine number_false_le.2 ?_
    rw [← k.ordinal_round_units (Magnitude.units_pos hpositive)]
    exact Magnitude.round_mono f (Magnitude.units_pos hpositive) (Magnitude.units_pos hpositive)
      (Nat.mul_le_mul_right _ hunits)

/-! ## Factors next to one -/

variable {x y : Single}

theorem mul_one' (hx : x.Unsigned) : x * .ofNat .single 1 = x := by
  cases x with
  | nan => rfl
  | number negative m =>
      cases negative with
      | true => exact hx.elim
      | false =>
          cases hm : m.isInfinite with
          | true =>
              obtain rfl : m = .infinite := Magnitude.eq_of_ordinal (isInfinite_iff.1 hm)
              decide +kernel
          | false =>
              have hone : (Magnitude.round .single (1 * Format.single.one) 1).isInfinite = false := by
                decide +kernel
              show number false m * number false (.round .single (1 * Format.single.one) 1) = _
              rw [mul_number, hm, hone, ScaleRule.units_one]
              exact congrArg (number false)
                (Magnitude.eq_of_ordinal (m.ordinal_round_units Format.single.one_pos))

/-- A positive number does not shrink when it is multiplied by one or more. -/
theorem le_mul_of_one_le (hx : .zero < x) (hy : .ofNat .single 1 ≤ y) : x ≤ x * y := by
  have hone : (.zero : Single) < .ofNat .single 1 := by decide +kernel
  have hpositive := lt_of_lt_of_le' hone hy
  have hgrows := mul_le_mul_right' unsigned_ofNat (unsigned_of_pos hpositive) (unsigned_of_pos hx)
    hy (isNaN_mul_of_pos hx hone) (isNaN_mul_of_pos hx hpositive)
  rwa [mul_one' (unsigned_of_pos hx)] at hgrows

/-- A number without a sign does not grow when it is multiplied by one or less. -/
theorem mul_le_of_le_one (hx : x.Unsigned) (hnumber : x.isNaN = false) (hpos : .zero < y)
    (hy : y ≤ .ofNat .single 1) : x * y ≤ x := by
  have hone : (.zero : Single) < .ofNat .single 1 ∧
      (.ofNat .single 1 : Single).isFinite = true := by decide +kernel
  have hfinite := isFinite_of_le (unsigned_of_pos hpos) hone.2 hy unsigned_ofNat
  have hshrinks := mul_le_mul_right' (unsigned_of_pos hpos) unsigned_ofNat hx hy
    (isNaN_mul_of_isFinite hnumber hpos hfinite)
    (isNaN_mul_of_isFinite hnumber hone.1 hone.2)
  rwa [mul_one' hx] at hshrinks

end Binary

open Binary

namespace SweepPlan

variable {plan : SweepPlan} {sweep : Sweep} {layer : Layer} {input : Single}

/-- The weight scale of a layer is a number. -/
theorem isNaN_weightScale (plan : SweepPlan) (layer : Layer) :
    (plan.weightScale layer).isNaN = false := by
  unfold weightScale
  dsimp only
  split
  · rename_i hpositive
    refine isNaN_div_of_pos ?_ ?_ (unsigned_of_pos hpositive) (number_of_lt_right hpositive) <;>
      cases plan.precision <;> decide +kernel
  · rfl

/-- A limit on the output does not raise the scale of the weights. -/
theorem limited_le_weightScale (plan : SweepPlan) (layer : Layer)
    (hlimit : ∀ {limit}, plan.outputLimit? sweep layer.id = some limit → limit.Unsigned)
    (hinput : input.Unsigned) :
    (plan.limited layer input sweep).1 ≤ plan.weightScale layer := by
  have hself := le_refl_of_number (plan.isNaN_weightScale layer)
  unfold limited
  cases hsome : plan.outputLimit? sweep layer.id with
  | none => exact hself
  | some limit =>
      dsimp only
      split
      · rename_i hexceeds
        exact div_le_of_lt_mul (hlimit hsome) hinput (plan.unsigned_weightScale layer) hexceeds
      · exact hself

/-- Weights that fit their precision have a scale of at least one. -/
theorem one_le_weightScale (hweights : layer.maxAbsWeight ≤ plan.precision.maxWeight) :
    .ofNat .single 1 ≤ plan.weightScale layer := by
  have hprecision : .zero < plan.precision.maxWeight ∧
      plan.precision.maxWeight.isFinite = true := by
    cases plan.precision <;> exact ⟨by decide +kernel, by decide +kernel⟩
  unfold weightScale
  dsimp only
  split
  · rename_i hpositive
    have hunsigned := unsigned_of_pos hpositive
    refine le_of_not_lt' rfl ?_ (not_div_lt_one hunsigned (unsigned_of_pos hprecision.1) hweights)
    exact isNaN_div_of_pos hprecision.1 hprecision.2 hunsigned (number_of_lt_right hpositive)
  · exact le_refl_of_number rfl

end SweepPlan

end LayerQuant
