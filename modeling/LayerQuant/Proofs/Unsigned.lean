import Mathlib
import LayerQuant.Proofs.Comparison
import LayerQuant.Proofs.Rounding

/-!
# Arithmetic without signs

With usable settings no scale carries a sign, so all that is needed of the operations is how they
treat `Unsigned` data. On these, products and integer ceilings are monotone and quotients are
antitone in the divisor, as long as the results are numbers. `mul_le_mul_of_unsigned`, which lets
one of the factors be negative, and `div_anti` are the two that later modules rest on.
-/

namespace LayerQuant

namespace Binary

variable {f : Format} {a b c w : Binary f} {m m' : Magnitude f}

/-- The datum is not a number, or it has a positive sign. -/
def Unsigned : Binary f → Prop
  | number true _ => False
  | _ => True

@[simp] theorem unsigned_number : (number false m).Unsigned := trivial

@[simp] theorem unsigned_zero : (zero : Binary f).Unsigned := trivial

theorem Unsigned.exists_number (h : a.Unsigned) (hnumber : a.isNaN = false) :
    ∃ m, a = number false m := by
  cases a with
  | nan => cases hnumber
  | number negative m =>
      cases negative with
      | false => exact ⟨m, rfl⟩
      | true => exact h.elim

@[simp] theorem number_false_le : number false m ≤ number false m' ↔ m.ordinal ≤ m'.ordinal := by
  simp [position, signed]

@[simp] theorem number_false_lt : number false m < number false m' ↔ m.ordinal < m'.ordinal := by
  simp [position, signed]

theorem zero_lt_number : zero < number false m ↔ 0 < m.ordinal :=
  number_false_lt

/-- A positive datum is a number without a sign other than zero. -/
theorem exists_of_pos (h : zero < a) : ∃ m, a = number false m ∧ 0 < m.ordinal := by
  cases a with
  | nan => simp at h
  | number negative m =>
      cases negative with
      | false => exact ⟨m, rfl, zero_lt_number.1 h⟩
      | true =>
          simp only [zero, number_lt_number, position, signed, Magnitude.zero] at h
          simp at h
          omega

/-- A positive datum has no sign. -/
theorem unsigned_of_pos (h : zero < a) : a.Unsigned := by
  obtain ⟨m, rfl, _⟩ := exists_of_pos h
  trivial

/-- Every number without a sign is at least zero. -/
theorem Unsigned.zero_le (h : a.Unsigned) (hnumber : a.isNaN = false) : zero ≤ a := by
  obtain ⟨m, rfl⟩ := h.exists_number hnumber
  exact number_false_le.2 (Nat.zero_le _)

/-- Every number without a sign is at most infinity. -/
theorem Unsigned.le_infinity (h : a.Unsigned) (hnumber : a.isNaN = false) : a ≤ infinity := by
  obtain ⟨m, rfl⟩ := h.exists_number hnumber
  exact number_false_le.2 m.le_infinity

theorem isInfinite_iff : m.isInfinite = true ↔ m.ordinal = f.infinity := by
  simp [Magnitude.isInfinite]

theorem isInfinite_eq_false : m.isInfinite = false ↔ m.ordinal < f.infinity := by
  have := m.le_infinity
  simp only [Magnitude.isInfinite, beq_eq_false_iff_ne]
  omega

theorem isInfinite_of_le (hle : m.ordinal ≤ m'.ordinal) (h : m'.isInfinite = false) :
    m.isInfinite = false := by
  rw [isInfinite_eq_false] at h ⊢
  omega

theorem isFinite_number {negative : Bool} :
    (number negative m).isFinite = true ↔ m.ordinal < f.infinity := by
  simp [isFinite, isInfinite_eq_false]

theorem number_of_isFinite (h : a.isFinite = true) : a.isNaN = false := by
  cases a with
  | nan => cases h
  | number negative m => rfl

/-- What is at most a finite number without a sign, and has none itself, is finite. -/
theorem isFinite_of_le (ha : a.Unsigned) (hb : b.isFinite = true) (h : a ≤ b)
    (hunsigned : b.Unsigned) : a.isFinite = true := by
  obtain ⟨m, rfl⟩ := ha.exists_number (number_of_le_left h)
  obtain ⟨m', rfl⟩ := hunsigned.exists_number (number_of_le_right h)
  rw [isFinite_number] at hb ⊢
  have := number_false_le.1 h
  omega

/-- The largest finite number without a sign. -/
def largest (f : Format) : Binary f := number false ⟨f.infinity - 1, Nat.sub_le _ _⟩

/-- A finite number without a sign is at most the largest one. -/
theorem Unsigned.le_largest (h : a.Unsigned) (hfinite : a.isFinite = true) : a ≤ largest f := by
  obtain ⟨m, rfl⟩ := h.exists_number (number_of_isFinite hfinite)
  exact number_false_le.2 (Nat.le_sub_one_of_lt (isFinite_number.1 hfinite))

/-- A number without a sign is finite, or it is infinity. -/
theorem Unsigned.finite_or_infinity (h : a.Unsigned) (hnumber : a.isNaN = false) :
    a.isFinite = true ∨ a = infinity := by
  obtain ⟨m, rfl⟩ := h.exists_number hnumber
  rcases Nat.lt_or_eq_of_le m.le_infinity with hlt | heq
  · exact Or.inl (isFinite_number.2 hlt)
  · exact Or.inr (congrArg (number false) (Magnitude.eq_of_ordinal heq))

/-! ## Results without a sign -/

@[simp] theorem unsigned_ofUnits {num den : Nat} : (ofUnits f false num den).Unsigned := trivial

@[simp] theorem unsigned_ofNat {n : Nat} : (ofNat f n).Unsigned := trivial

theorem unsigned_abs : a.abs.Unsigned := by
  cases a <;> trivial

theorem unsigned_maximum (ha : a.Unsigned) (hb : b.Unsigned) : (a.maximum b).Unsigned := by
  rcases maximum_cases a b with h | h
  · rwa [h]
  · rwa [h]

theorem unsigned_minimum (ha : a.Unsigned) (hb : b.Unsigned) : (a.minimum b).Unsigned :=
  minimum_of_both (p := Unsigned) ha hb

/-! ## Products -/

theorem mul_number : (number false m : Binary f) * number false m' =
    if m.isInfinite || m'.isInfinite then
      if m.ordinal == 0 || m'.ordinal == 0 then nan else infinity
    else ofUnits f false (m.units * m'.units) f.one :=
  rfl

theorem unsigned_mul (ha : a.Unsigned) (hb : b.Unsigned) : (a * b).Unsigned := by
  cases a with
  | nan => exact trivial
  | number n m =>
      cases b with
      | nan => exact trivial
      | number n' m' =>
          cases n <;> cases n' <;> try contradiction
          rw [mul_number]
          repeat' split
          all_goals trivial

/-- A product of positive factors is a number. -/
theorem isNaN_mul_of_pos (ha : zero < a) (hb : zero < b) : (a * b).isNaN = false := by
  obtain ⟨m, rfl, hm⟩ := exists_of_pos ha
  obtain ⟨m', rfl, hm'⟩ := exists_of_pos hb
  rw [mul_number]
  split
  · rw [if_neg (by simp [hm.ne', hm'.ne'])]
    rfl
  · rfl

/-- A positive product has a positive second factor. -/
theorem pos_of_mul_pos (ha : a.Unsigned) (hw : w.Unsigned) (h : zero < a * w) : zero < w := by
  have hnumber := number_of_lt_right h
  cases a with
  | nan => cases hnumber
  | number n m =>
      cases w with
      | nan => cases hnumber
      | number n' m' =>
          cases n <;> cases n' <;> try contradiction
          rw [zero_lt_number]
          by_contra hzero
          have hordinal : m'.ordinal = 0 := by omega
          rw [mul_number] at h
          split at h
          · rw [if_pos (by simp [hordinal])] at h
            exact not_lt_nan h
          · rw [Magnitude.units_zero hordinal, Nat.mul_zero] at h
            have hround := zero_lt_number.1 h
            rw [Magnitude.round_zero f f.one_pos] at hround
            omega

/-- Products that are numbers grow with a factor. -/
theorem mul_le_mul_left' (ha : a.Unsigned) (hb : b.Unsigned) (hw : w.Unsigned) (h : a ≤ b)
    (hleft : (a * w).isNaN = false) (hright : (b * w).isNaN = false) : a * w ≤ b * w := by
  obtain ⟨m, rfl⟩ := ha.exists_number (number_of_le_left h)
  obtain ⟨m', rfl⟩ := hb.exists_number (number_of_le_right h)
  have hle := number_false_le.1 h
  cases w with
  | nan => cases hleft
  | number negative k =>
      cases negative with
      | true => exact hw.elim
      | false =>
          cases hinfinite : m'.isInfinite || k.isInfinite with
          | true =>
              -- The larger product is a number with an infinite factor, so it is infinite.
              have hproduct : (number false m' : Binary f) * number false k = infinity := by
                rw [mul_number, if_pos hinfinite]
                rw [mul_number, if_pos hinfinite] at hright
                split at hright
                · cases hright
                · rw [if_neg ‹_›]
              rw [hproduct]
              exact (unsigned_mul ha hw).le_infinity hleft
          | false =>
              obtain ⟨hm', hk⟩ := Bool.or_eq_false_iff.1 hinfinite
              have hm := isInfinite_of_le hle hm'
              rw [mul_number, mul_number, hm, hm', hk]
              refine number_false_le.2 (Magnitude.round_mono f f.one_pos f.one_pos ?_)
              exact Nat.mul_le_mul_right _ (Nat.mul_le_mul_right _ (Magnitude.units_mono hle))

/-- A product with a factor that has no sign takes the sign of the other one. -/
theorem mul_number_eq_number {n : Bool} {k : Magnitude f}
    (h : (number n m * number false k).isNaN = false) :
    ∃ p, (number false m : Binary f) * number false k = number false p ∧
      number n m * number false k = number n p := by
  have hmul : ∀ n, (number n m : Binary f) * number false k =
      if m.isInfinite || k.isInfinite then
        if m.ordinal == 0 || k.ordinal == 0 then nan else number n .infinite
      else ofUnits f n (m.units * k.units) f.one := by
    intro n
    cases n <;> rfl
  rw [hmul] at h
  rw [hmul, hmul]
  split
  · split
    · simp_all
    · exact ⟨_, rfl, rfl⟩
  · exact ⟨_, rfl, rfl⟩

/-- A product with zero is zero. -/
theorem ordinal_mul_of_zero {k p : Magnitude f} (hzero : m.ordinal = 0)
    (h : (number false m : Binary f) * number false k = number false p) : p.ordinal = 0 := by
  rw [mul_number] at h
  split at h
  · rw [if_pos (by simp [hzero])] at h
    cases h
  · rw [Magnitude.units_zero hzero, Nat.zero_mul] at h
    cases h
    exact Magnitude.round_zero f f.one_pos

/-- Products with a factor that has no sign grow with the other one, whatever its sign. -/
theorem mul_le_mul_of_unsigned (hw : w.Unsigned) (h : a ≤ b) (hleft : (a * w).isNaN = false)
    (hright : (b * w).isNaN = false) : a * w ≤ b * w := by
  cases a with
  | nan => cases hleft
  | number n m =>
      cases b with
      | nan => cases hright
      | number n' m' =>
          have hfactor : w.isNaN = false := by
            cases w with
            | nan => cases hleft
            | number => rfl
          obtain ⟨k, rfl⟩ := hw.exists_number hfactor
          obtain ⟨p, hp, heq⟩ := mul_number_eq_number hleft
          obtain ⟨p', hp', heq'⟩ := mul_number_eq_number hright
          -- Without their signs the products grow with the magnitudes.
          have hmono : ∀ {m m' p p' : Magnitude f},
              (number false m : Binary f) * number false k = number false p →
              (number false m' : Binary f) * number false k = number false p' →
              m.ordinal ≤ m'.ordinal → p.ordinal ≤ p'.ordinal := by
            intro m m' p p' hp hp' hle
            have hproducts := mul_le_mul_left' (w := number false k) unsigned_number
              unsigned_number unsigned_number (number_false_le.2 hle) (by rw [hp]; rfl)
              (by rw [hp']; rfl)
            rw [hp, hp'] at hproducts
            exact number_false_le.1 hproducts
          rw [number_le_number] at h
          rw [heq, heq', number_le_number]
          unfold position signed at h ⊢
          cases n <;> cases n' <;> simp only [Bool.false_eq_true, if_false, if_true] at h ⊢
          · have hle := hmono hp hp' (by omega)
            omega
          · -- What is not negative is at most what is only if both are zero.
            have hzero := ordinal_mul_of_zero (by omega) hp
            have hzero' := ordinal_mul_of_zero (by omega) hp'
            omega
          · omega
          · have hle := hmono hp' hp (by omega)
            omega

/-! ## Quotients -/

theorem div_number : (number false m : Binary f) / number false m' =
    if m.isInfinite then (if m'.isInfinite then nan else infinity)
    else if m'.isInfinite then zero
    else if m'.ordinal == 0 then (if m.ordinal == 0 then nan else infinity)
    else ofUnits f false (m.units * f.one) m'.units :=
  rfl

theorem unsigned_div (ha : a.Unsigned) (hb : b.Unsigned) : (a / b).Unsigned := by
  cases a with
  | nan => exact trivial
  | number n m =>
      cases b with
      | nan => exact trivial
      | number n' m' =>
          cases n <;> cases n' <;> try contradiction
          rw [div_number]
          repeat' split
          all_goals trivial

/-- A positive finite number divided by a number without a sign is a number. -/
theorem isNaN_div_of_pos (ha : zero < a) (hfinite : a.isFinite = true) (hb : b.Unsigned)
    (hnumber : b.isNaN = false) : (a / b).isNaN = false := by
  obtain ⟨m, rfl, hm⟩ := exists_of_pos ha
  obtain ⟨m', rfl⟩ := hb.exists_number hnumber
  rw [div_number, isInfinite_eq_false.2 (isFinite_number.1 hfinite)]
  simp only [Bool.false_eq_true, if_false, beq_iff_eq, hm.ne']
  split
  · rfl
  · split <;> rfl

/-- A positive finite number divided by a larger divisor is smaller. -/
theorem div_anti (ha : zero < a) (hfinite : a.isFinite = true) (hb : b.Unsigned)
    (hc : c.Unsigned) (h : b ≤ c) : a / c ≤ a / b := by
  have hleft := isNaN_div_of_pos ha hfinite hc (number_of_le_right h)
  have hright := isNaN_div_of_pos ha hfinite hb (number_of_le_left h)
  have hdividend := unsigned_of_pos ha
  obtain ⟨m, rfl, hm⟩ := exists_of_pos ha
  obtain ⟨k, rfl⟩ := hb.exists_number (number_of_le_left h)
  obtain ⟨k', rfl⟩ := hc.exists_number (number_of_le_right h)
  have hle := number_false_le.1 h
  have hm' := isInfinite_eq_false.2 (isFinite_number.1 hfinite)
  cases hk' : k'.isInfinite with
  | true =>
      -- The smaller quotient is zero.
      have hzero : (number false m : Binary f) / number false k' = zero := by
        simp [div_number, hm', hk']
      rw [hzero]
      exact (unsigned_div hdividend hb).zero_le hright
  | false =>
      have hk := isInfinite_of_le hle hk'
      by_cases hzero : k.ordinal = 0
      · -- The larger quotient is infinite.
        have htop : (number false m : Binary f) / number false k = infinity := by
          simp [div_number, hm', hk, hzero, hm.ne']
        rw [htop]
        exact (unsigned_div hdividend hc).le_infinity hleft
      · have hpos : 0 < k.ordinal := Nat.pos_of_ne_zero hzero
        have hpos' : k'.ordinal ≠ 0 := by omega
        simp only [div_number, hm', hk, hk', beq_iff_eq, hzero, hpos', Bool.false_eq_true, if_false]
        refine number_false_le.2 (Magnitude.round_mono f
          (Magnitude.units_pos (Nat.pos_of_ne_zero hpos')) (Magnitude.units_pos hpos) ?_)
        exact Nat.mul_le_mul_left _ (Magnitude.units_mono hle)

/-- A positive finite number divided by infinity is zero. -/
theorem div_infinity (ha : zero < a) (hfinite : a.isFinite = true) : a / infinity = zero := by
  obtain ⟨m, rfl, _⟩ := exists_of_pos ha
  have hm := isInfinite_eq_false.2 (isFinite_number.1 hfinite)
  have htop : (Magnitude.infinite : Magnitude f).isInfinite = true := isInfinite_iff.2 rfl
  simp only [infinity, div_number, hm, htop, Bool.false_eq_true, if_false, if_true]

/-- The quotient by a divisor that is at most the dividend is not below one. -/
theorem not_div_lt_one (ha : a.Unsigned) (hb : b.Unsigned) (h : a ≤ b) : ¬ b / a < ofNat f 1 := by
  obtain ⟨m, rfl⟩ := ha.exists_number (number_of_le_left h)
  obtain ⟨m', rfl⟩ := hb.exists_number (number_of_le_right h)
  have hle := number_false_le.1 h
  have hinfinity : ¬ (infinity : Binary f) < ofNat f 1 :=
    not_lt_of_le' (unsigned_ofNat.le_infinity rfl)
  rw [div_number]
  cases hm' : m'.isInfinite with
  | true => split <;> split <;> simp_all
  | false =>
      have hm := isInfinite_of_le hle hm'
      simp only [hm, Bool.false_eq_true, if_false, beq_iff_eq]
      split
      · split <;> simp_all
      · rename_i hzero
        refine not_lt_of_le' (number_false_le.2 (Magnitude.round_mono f Nat.one_pos
          (Magnitude.units_pos (Nat.pos_of_ne_zero hzero)) ?_))
        rw [Nat.one_mul, Nat.mul_one, Nat.mul_comm]
        exact Nat.mul_le_mul_right _ (Magnitude.units_mono hle)

/-! ## Differences and ceilings -/

/-- A difference is a number only if what is taken off is one. -/
theorem number_of_sub (h : (a - b).isNaN = false) : b.isNaN = false := by
  cases b with
  | nan =>
      cases a with
      | nan => cases h
      | number n m => cases h
  | number n m => rfl

/-- A difference that takes off at least as much as there is is not above anything without a
sign. -/
theorem not_lt_sub (ha : a.Unsigned) (hb : b.Unsigned) (hc : c.Unsigned) (h : a ≤ b) :
    ¬ c < a - b := by
  obtain ⟨m, rfl⟩ := ha.exists_number (number_of_le_left h)
  obtain ⟨m', rfl⟩ := hb.exists_number (number_of_le_right h)
  have hle := number_false_le.1 h
  intro hlt
  obtain ⟨k, rfl⟩ := hc.exists_number (number_of_lt_left hlt)
  have hsub : (number false m : Binary f) - number false m' =
      (number false m).add (number true m') := rfl
  rw [hsub] at hlt
  unfold add at hlt
  cases hm' : m'.isInfinite with
  | true =>
      -- Taking off infinity leaves minus infinity, or no number.
      cases hm : m.isInfinite with
      | true => simp [hm, hm'] at hlt
      | false =>
          simp only [hm, hm', Bool.false_eq_true, if_false, if_true, number_lt_number, position,
            signed] at hlt
          omega
  | false =>
      have hm := isInfinite_of_le hle hm'
      have hunits := Magnitude.units_mono hle
      simp only [hm, hm', Bool.false_eq_true, if_false] at hlt
      split at hlt
      · simp only [number_lt_number, position, signed, Magnitude.zero] at hlt
        simp at hlt
        omega
      · -- The exact difference is negative, and rounding keeps its sign.
        rename_i hne
        have hnegative : signed false m.units + signed true m'.units < 0 := by
          simp only [signed, Bool.false_eq_true, if_false, if_true] at hne ⊢
          omega
        rw [decide_eq_true hnegative, ofUnits, number_lt_number] at hlt
        simp only [position, signed, Bool.false_eq_true, if_false, if_true] at hlt
        omega

theorem ceil_number : (number false m : Binary f).ceil =
    if m.isInfinite then number false m
    else ofUnits f false ((m.units + (f.one - 1)) / f.one * f.one) 1 :=
  rfl

theorem ceil_infinity : (infinity : Binary f).ceil = infinity :=
  if_pos (isInfinite_iff.2 rfl)

theorem unsigned_ceil (ha : a.Unsigned) : a.ceil.Unsigned := by
  cases a with
  | nan => exact trivial
  | number negative m =>
      cases negative with
      | true => exact ha.elim
      | false =>
          rw [ceil_number]
          split <;> trivial

/-- A ceiling is a number as soon as its argument is. -/
theorem isNaN_ceil (ha : a.Unsigned) (hnumber : a.isNaN = false) : a.ceil.isNaN = false := by
  obtain ⟨m, rfl⟩ := ha.exists_number hnumber
  rw [ceil_number]
  split <;> rfl

/-- A ceiling grows with its argument. -/
theorem ceil_mono (ha : a.Unsigned) (hb : b.Unsigned) (h : a ≤ b) : a.ceil ≤ b.ceil := by
  obtain ⟨m, rfl⟩ := ha.exists_number (number_of_le_left h)
  obtain ⟨m', rfl⟩ := hb.exists_number (number_of_le_right h)
  have hle := number_false_le.1 h
  cases hm' : m'.isInfinite with
  | true =>
      have htop : (number false m' : Binary f).ceil = infinity := by
        have hordinal := isInfinite_iff.1 hm'
        rw [ceil_number, if_pos hm', infinity]
        congr 1
        cases m'
        simp_all [Magnitude.infinite]
      rw [htop]
      exact (unsigned_ceil ha).le_infinity (isNaN_ceil ha rfl)
  | false =>
      have hm := isInfinite_of_le hle hm'
      rw [ceil_number, ceil_number, hm, hm']
      refine number_false_le.2 (Magnitude.round_mono f Nat.one_pos Nat.one_pos ?_)
      refine Nat.mul_le_mul_right _ (Nat.mul_le_mul_right _ (Nat.div_le_div_right ?_))
      exact Nat.add_le_add_right (Magnitude.units_mono hle) _

/-- The ceiling of a positive number is at least one. -/
theorem one_le_ceil (h : zero < a) : ofNat f 1 ≤ a.ceil := by
  obtain ⟨m, rfl, hm⟩ := exists_of_pos h
  rw [ceil_number]
  split
  · rename_i hinfinite
    refine number_false_le.2 ?_
    rw [isInfinite_iff.1 hinfinite]
    exact (Magnitude.round f (1 * f.one) 1).le_infinity
  · refine number_false_le.2 (Magnitude.round_mono f Nat.one_pos Nat.one_pos ?_)
    refine Nat.mul_le_mul_right _ (Nat.mul_le_mul_right _ ?_)
    have hone := f.one_pos
    have hunits := Magnitude.units_pos hm
    exact Nat.div_pos (by omega) hone

end Binary

end LayerQuant
