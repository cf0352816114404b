import Mathlib
import LayerQuant.Binary.Basic

/-!
# Comparing numbers

Comparison is a linear order on the numbers of a format, in which the two zeros are equal, and false
as soon as one side is not a number. A maximum or minimum leaves out what is not a number, so a list
has a largest and a smallest member in the sense of `IsLargest` and `IsSmallest`.
-/

namespace LayerQuant

namespace Binary

variable {f : Format} {a b c : Binary f}

@[simp] theorem number_le_number {n n' : Bool} {m m' : Magnitude f} :
    number n m ≤ number n' m' ↔ position n m ≤ position n' m' := by
  simp [LE.le, lessEq]

@[simp] theorem number_lt_number {n n' : Bool} {m m' : Magnitude f} :
    number n m < number n' m' ↔ position n m < position n' m' := by
  simp [LT.lt, less]

@[simp] theorem not_nan_le : ¬ (nan : Binary f) ≤ b := by simp [LE.le, lessEq]

@[simp] theorem not_le_nan : ¬ a ≤ (nan : Binary f) := by cases a <;> simp [LE.le, lessEq]

@[simp] theorem not_nan_lt : ¬ (nan : Binary f) < b := by simp [LT.lt, less]

@[simp] theorem not_lt_nan : ¬ a < (nan : Binary f) := by cases a <;> simp [LT.lt, less]

@[simp] theorem isNaN_nan : (nan : Binary f).isNaN = true := rfl

@[simp] theorem isNaN_number {n : Bool} {m : Magnitude f} : (number n m).isNaN = false := rfl

/-- Only numbers are at most something. -/
theorem number_of_le_left (h : a ≤ b) : a.isNaN = false := by
  cases a <;> simp_all

/-- Something is at most numbers only. -/
theorem number_of_le_right (h : a ≤ b) : b.isNaN = false := by
  cases b <;> simp_all

/-- Only numbers are below something. -/
theorem number_of_lt_left (h : a < b) : a.isNaN = false := by
  cases a <;> simp_all

/-- Something is below numbers only. -/
theorem number_of_lt_right (h : a < b) : b.isNaN = false := by
  cases b <;> simp_all

/-- A number is at most itself. -/
theorem le_refl_of_number (h : a.isNaN = false) : a ≤ a := by
  cases a <;> simp_all

theorem le_trans' (hab : a ≤ b) (hbc : b ≤ c) : a ≤ c := by
  cases a <;> cases b <;> cases c <;> simp_all
  omega

theorem lt_of_lt_of_le' (hab : a < b) (hbc : b ≤ c) : a < c := by
  cases a <;> cases b <;> cases c <;> simp_all
  omega

theorem lt_of_le_of_lt' (hab : a ≤ b) (hbc : b < c) : a < c := by
  cases a <;> cases b <;> cases c <;> simp_all
  omega

theorem le_of_lt' (h : a < b) : a ≤ b := by
  cases a <;> cases b <;> simp_all
  omega

/-- Nothing is both at most and above something. -/
theorem not_lt_of_le' (h : a ≤ b) : ¬ b < a := by
  cases a <;> cases b <;> simp_all

/-- Two numbers compare one way or the other. -/
theorem le_of_not_lt' (ha : a.isNaN = false) (hb : b.isNaN = false) (h : ¬ b < a) : a ≤ b := by
  cases a <;> cases b <;> simp_all

/-- Whatever is not at most a number is above it or not a number itself. -/
theorem lt_of_not_le' (ha : a.isNaN = false) (hb : b.isNaN = false) (h : ¬ a ≤ b) : b < a := by
  cases a <;> cases b <;> simp_all

/-- Equal numbers are those that are at most each other. -/
theorem sameNumber_iff : a.sameNumber b = true ↔ a ≤ b ∧ b ≤ a := by
  cases a <;> cases b <;> simp [sameNumber]
  omega

/-! ## The larger and the smaller of two -/

theorem maximum_cases (a b : Binary f) : a.maximum b = a ∨ a.maximum b = b := by
  cases a <;> cases b <;> simp only [maximum] <;> first | tauto | (split <;> tauto)

theorem minimum_cases (a b : Binary f) : a.minimum b = a ∨ a.minimum b = b := by
  cases a <;> cases b <;> simp only [minimum] <;> first | tauto | (split <;> tauto)

/-- What holds of both holds of the smaller one. -/
theorem minimum_of_both {p : Binary f → Prop} (ha : p a) (hb : p b) : p (a.minimum b) := by
  rcases minimum_cases a b with h | h
  · rwa [h]
  · rwa [h]

/-- A number on the left is at most the maximum. -/
theorem le_maximum_left (h : a.isNaN = false) : a ≤ a.maximum b := by
  cases a <;> cases b <;> simp only [maximum] <;> try simp_all
  split <;> simp_all

/-- A number on the right is at most the maximum. -/
theorem le_maximum_right (h : b.isNaN = false) : b ≤ a.maximum b := by
  cases a <;> cases b <;> simp only [maximum] <;> try simp_all
  split <;> simp_all
  omega

/-- The minimum is at most a number on the left. -/
theorem minimum_le_left (h : a.isNaN = false) : a.minimum b ≤ a := by
  cases a <;> cases b <;> simp only [minimum] <;> try simp_all
  split <;> simp_all

/-- The minimum is at most a number on the right. -/
theorem minimum_le_right (h : b.isNaN = false) : a.minimum b ≤ b := by
  cases a <;> cases b <;> simp only [minimum] <;> try simp_all
  split <;> simp_all
  omega

/-- A minimum is a number as soon as one side is. -/
theorem isNaN_minimum : (a.minimum b).isNaN = (a.isNaN && b.isNaN) := by
  cases a <;> cases b <;> simp only [minimum] <;> try simp
  split <;> simp

/-- Nothing is below itself. -/
theorem not_lt_self : ¬ a < a := by
  cases a <;> simp

theorem minimum_of_lt (h : a < b) : a.minimum b = a := by
  cases a <;> cases b <;> simp_all [minimum]

theorem minimum_of_not_lt (hb : b.isNaN = false) (h : ¬ a < b) : a.minimum b = b := by
  cases a <;> cases b <;> simp_all [minimum]

/-- Nothing is below a minimum that it goes into. -/
theorem not_lt_minimum : ¬ a < a.minimum b := by
  by_cases h : a < b
  · rw [minimum_of_lt h]
    exact not_lt_self
  · rcases minimum_cases a b with heq | heq
    · rw [heq]
      exact not_lt_self
    · rwa [heq]

/-! ## The largest and the smallest of a list -/

/-- `c` is a member of the list, and no member that is a number is above it. If any member is a
number, so is `c`. -/
def IsLargest (c : Binary f) (xs : List (Binary f)) : Prop :=
  c ∈ xs ∧ ∀ x ∈ xs, x.isNaN = true ∨ x ≤ c

/-- `c` is a member of the list, and no member that is a number is below it. If any member is a
number, so is `c`. -/
def IsSmallest (c : Binary f) (xs : List (Binary f)) : Prop :=
  c ∈ xs ∧ ∀ x ∈ xs, x.isNaN = true ∨ c ≤ x

/-- Folding with an operation that picks the side which is extreme for `R` finds an extreme member
of the start and the list. -/
theorem foldl_extreme {op : Binary f → Binary f → Binary f} {R : Binary f → Binary f → Prop}
    (hcases : ∀ a b, op a b = a ∨ op a b = b)
    (hleft : ∀ a b, a.isNaN = false → R a (op a b))
    (hright : ∀ a b, b.isNaN = false → R b (op a b))
    (hnumber : ∀ a b, R a b → b.isNaN = false) (hrefl : ∀ a, a.isNaN = false → R a a)
    (htrans : ∀ a b c, R a b → R b c → R a c) (xs : List (Binary f)) (start : Binary f) :
    xs.foldl op start ∈ start :: xs ∧
      ∀ x ∈ start :: xs, x.isNaN = true ∨ R x (xs.foldl op start) := by
  induction xs generalizing start with
  | nil =>
      refine ⟨by simp, fun x hx => ?_⟩
      obtain rfl : x = start := by simpa using hx
      cases hnan : x.isNaN with
      | true => exact Or.inl rfl
      | false => exact Or.inr (hrefl x hnan)
  | cons y ys ih =>
      obtain ⟨hmem, hextreme⟩ := ih (op start y)
      -- The pick of the first two is a number as soon as one of them is.
      have hpick : ∀ x, R x (op start y) → R x (ys.foldl op (op start y)) := by
        intro x hx
        have hstart := (hextreme _ List.mem_cons_self).resolve_left (by simp [hnumber _ _ hx])
        exact htrans x _ _ hx hstart
      refine ⟨?_, fun x hx => ?_⟩
      · rcases List.mem_cons.1 hmem with heq | hrest
        · rw [List.foldl_cons, heq]
          rcases hcases start y with h | h <;> simp [h]
        · exact List.mem_cons_of_mem _ (List.mem_cons_of_mem _ hrest)
      · cases hnan : x.isNaN with
        | true => exact Or.inl rfl
        | false =>
            right
            rcases List.mem_cons.1 hx with rfl | hx
            · exact hpick x (hleft x y hnan)
            · rcases List.mem_cons.1 hx with rfl | hx
              · exact hpick x (hright start x hnan)
              · exact (hextreme x (List.mem_cons_of_mem _ hx)).resolve_left (by simp [hnan])

/-- Folding with the maximum finds the largest of the start and the list. -/
theorem isLargest_foldl (xs : List (Binary f)) (start : Binary f) :
    IsLargest (xs.foldl maximum start) (start :: xs) :=
  foldl_extreme (R := fun a b => a ≤ b) maximum_cases (fun _ _ => le_maximum_left)
    (fun _ _ => le_maximum_right) (fun _ _ => number_of_le_right) (fun _ => le_refl_of_number)
    (fun _ _ _ => le_trans') xs start

/-- Folding with the minimum finds the smallest of the start and the list. -/
theorem isSmallest_foldl (xs : List (Binary f)) (start : Binary f) :
    IsSmallest (xs.foldl minimum start) (start :: xs) :=
  foldl_extreme (R := fun a b => b ≤ a) minimum_cases (fun _ _ => minimum_le_left)
    (fun _ _ => minimum_le_right) (fun _ _ => number_of_le_left) (fun _ => le_refl_of_number)
    (fun _ _ _ hab hbc => le_trans' hbc hab) xs start

/-- What `largest?` finds is a largest member. -/
theorem isLargest_of_largest? {xs : List (Binary f)} (h : largest? xs = some c) :
    IsLargest c xs := by
  cases xs with
  | nil => simp [largest?] at h
  | cons x xs =>
      obtain rfl := Option.some.inj h
      exact isLargest_foldl xs x

/-- What `smallest?` finds is a smallest member. -/
theorem isSmallest_of_smallest? {xs : List (Binary f)} (h : smallest? xs = some c) :
    IsSmallest c xs := by
  cases xs with
  | nil => simp [smallest?] at h
  | cons x xs =>
      obtain rfl := Option.some.inj h
      exact isSmallest_foldl xs x

/-- Only the empty list has no largest member. -/
theorem largest?_eq_none {xs : List (Binary f)} : largest? xs = none ↔ xs = [] := by
  cases xs <;> simp [largest?]

/-- Only the empty list has no smallest member. -/
theorem smallest?_eq_none {xs : List (Binary f)} : smallest? xs = none ↔ xs = [] := by
  cases xs <;> simp [smallest?]

/-- A largest member is at least every member that is a number. -/
theorem IsLargest.le {x : Binary f} {xs : List (Binary f)} (h : IsLargest c xs) (hx : x ∈ xs)
    (hnumber : x.isNaN = false) : x ≤ c :=
  (h.2 x hx).resolve_left (by simp [hnumber])

/-- The extreme of the extreme member of one list and the members of another is the extreme of
both. -/
theorem extreme_append {R : Binary f → Binary f → Prop}
    (hnumber : ∀ a b, R a b → b.isNaN = false) (htrans : ∀ a b c, R a b → R b c → R a c)
    {xs ys : List (Binary f)} (h : a ∈ xs ∧ ∀ x ∈ xs, x.isNaN = true ∨ R x a)
    (hrest : c ∈ a :: ys ∧ ∀ x ∈ a :: ys, x.isNaN = true ∨ R x c) :
    c ∈ xs ++ ys ∧ ∀ x ∈ xs ++ ys, x.isNaN = true ∨ R x c := by
  refine ⟨?_, fun x hx => ?_⟩
  · rcases List.mem_cons.1 hrest.1 with rfl | hc
    · exact List.mem_append_left _ h.1
    · exact List.mem_append_right _ hc
  · rcases List.mem_append.1 hx with hx | hx
    · rcases h.2 x hx with hnan | hle
      · exact Or.inl hnan
      · have hbetween := (hrest.2 a List.mem_cons_self).resolve_left (by simp [hnumber x a hle])
        exact Or.inr (htrans x a c hle hbetween)
    · exact hrest.2 x (List.mem_cons_of_mem _ hx)

theorem IsLargest.append {xs ys : List (Binary f)} (h : IsLargest a xs)
    (hrest : IsLargest c (a :: ys)) : IsLargest c (xs ++ ys) :=
  extreme_append (R := fun a b => a ≤ b) (fun _ _ => number_of_le_right) (fun _ _ _ => le_trans')
    h hrest

theorem IsSmallest.append {xs ys : List (Binary f)} (h : IsSmallest a xs)
    (hrest : IsSmallest c (a :: ys)) : IsSmallest c (xs ++ ys) :=
  extreme_append (R := fun a b => b ≤ a) (fun _ _ => number_of_le_left)
    (fun _ _ _ hab hbc => le_trans' hbc hab) h hrest

/-- A smallest member is at most every member that is a number. -/
theorem IsSmallest.le {x : Binary f} {xs : List (Binary f)} (h : IsSmallest c xs) (hx : x ∈ xs)
    (hnumber : x.isNaN = false) : c ≤ x :=
  (h.2 x hx).resolve_left (by simp [hnumber])

/-- Two smallest members of lists with the same members are the same number. -/
theorem IsSmallest.sameNumber {xs ys : List (Binary f)} (h : IsSmallest a xs)
    (h' : IsSmallest c ys) (hmem : ∀ x, x ∈ xs ↔ x ∈ ys) (hnumber : a.isNaN = false) :
    a.sameNumber c = true := by
  have hle : c ≤ a := h'.le ((hmem a).1 h.1) hnumber
  exact sameNumber_iff.2 ⟨h.le ((hmem c).2 h'.1) (number_of_le_left hle), hle⟩

/-- Two largest members of lists with the same members are the same number. -/
theorem IsLargest.sameNumber {xs ys : List (Binary f)} (h : IsLargest a xs)
    (h' : IsLargest c ys) (hmem : ∀ x, x ∈ xs ↔ x ∈ ys) (hnumber : a.isNaN = false) :
    a.sameNumber c = true := by
  have hle : a ≤ c := h'.le ((hmem a).1 h.1) hnumber
  exact sameNumber_iff.2 ⟨hle, h.le ((hmem c).2 h'.1) (number_of_le_right hle)⟩

/-! ## Extrema that give way -/

/-- Folding from a number with an operation that gives way only to numbers that beat it finds the
extreme member of the start and the list. -/
theorem foldl_pick {beats R : Binary f → Binary f → Prop} [DecidableRel beats]
    (hbeats : ∀ a x, beats x a → x.isNaN = false ∧ R a x)
    (hkeeps : ∀ a x, a.isNaN = false → x.isNaN = false → ¬ beats x a → R x a)
    (hnumber : ∀ a b, R a b → b.isNaN = false) (hrefl : ∀ a, a.isNaN = false → R a a)
    (htrans : ∀ a b c, R a b → R b c → R a c) (xs : List (Binary f)) {start : Binary f}
    (hstart : start.isNaN = false) :
    xs.foldl (fun best x => if beats x best then x else best) start ∈ start :: xs ∧
      ∀ x ∈ start :: xs, x.isNaN = true ∨
        R x (xs.foldl (fun best x => if beats x best then x else best) start) := by
  induction xs generalizing start with
  | nil => simp [hrefl start hstart]
  | cons x rest ih =>
      rw [List.foldl_cons]
      by_cases hx : beats x start
      · obtain ⟨hxnumber, hle⟩ := hbeats start x hx
        have hpair : x ∈ [start, x] ∧ ∀ y ∈ [start, x], y.isNaN = true ∨ R y x := by
          simp [hle, hrefl x hxnumber]
        rw [if_pos hx]
        exact extreme_append hnumber htrans hpair (ih hxnumber)
      · have hlost : x.isNaN = true ∨ R x start := by
          cases hnan : x.isNaN with
          | true => exact Or.inl rfl
          | false => exact Or.inr (hkeeps start x hstart hnan hx)
        have hpair : start ∈ [start, x] ∧ ∀ y ∈ [start, x], y.isNaN = true ∨ R y start := by
          simp [hrefl start hstart, hlost]
        rw [if_neg hx]
        exact extreme_append hnumber htrans hpair (ih hstart)

/-- A minimum that gives way only to what is below it ends as the smallest of its start and the
list. -/
theorem isSmallest_foldl_lower (xs : List (Binary f)) {start : Binary f}
    (hstart : start.isNaN = false) :
    IsSmallest (xs.foldl (fun low x => if x < low then x else low) start) (start :: xs) :=
  foldl_pick (R := fun a b => b ≤ a) (fun _ _ hlt => ⟨number_of_lt_left hlt, le_of_lt' hlt⟩)
    (fun _ _ => le_of_not_lt') (fun _ _ => number_of_le_left) (fun _ => le_refl_of_number)
    (fun _ _ _ hab hbc => le_trans' hbc hab) xs hstart

/-- A maximum that gives way only to what is above it ends as the largest of its start and the
list. -/
theorem isLargest_foldl_higher (xs : List (Binary f)) {start : Binary f}
    (hstart : start.isNaN = false) :
    IsLargest (xs.foldl (fun high x => if high < x then x else high) start) (start :: xs) :=
  foldl_pick (R := fun a b => a ≤ b) (fun _ _ hlt => ⟨number_of_lt_right hlt, le_of_lt' hlt⟩)
    (fun _ _ hstart hx hnot => le_of_not_lt' hx hstart hnot) (fun _ _ => number_of_le_right)
    (fun _ => le_refl_of_number) (fun _ _ _ => le_trans') xs hstart

end Binary

end LayerQuant
