import LayerQuant.Proofs.RecordedSamples

/-!
# Extrema of folded samples

The extrema of a record start at `±10 ^ 20` and only give way to samples beyond them, so they are
those of the samples if some sample reaches the start: see `folded_extrema`. A sample above every
start, like `large`, leaves the minimum where it was.
-/

namespace LayerQuant

namespace Binary

variable {f : Format} {a b c start : Binary f}

/-- Equal numbers are one datum unless they are zero. -/
theorem eq_of_sameNumber (h : a.sameNumber b = true) (hzero : a.sameNumber zero = false) :
    a = b := by
  cases a with
  | nan => cases h
  | number negative m =>
      cases b with
      | nan => cases h
      | number negative' m' =>
          obtain ⟨ordinal, hle⟩ := m
          obtain ⟨ordinal', hle'⟩ := m'
          simp only [sameNumber, zero, position, signed, Magnitude.zero, beq_iff_eq,
            beq_eq_false_iff_ne] at h hzero
          cases negative with
          | false =>
              cases negative' with
              | false => simpa using h
              | true =>
                  simp at h hzero
                  omega
          | true =>
              cases negative' with
              | false =>
                  simp at h hzero
                  omega
              | true => simpa using h

/-- The extreme of a start and a list is that of the list if some member is as extreme as the
start, and otherwise it is the start. -/
theorem extreme_without_start {R : Binary f → Binary f → Prop}
    (hnumber : ∀ a b, R a b → b.isNaN = false) (hsame : ∀ x, R x start → R start x → start = x)
    (hstart : start.isNaN = false) {xs : List (Binary f)}
    (h : c ∈ start :: xs ∧ ∀ x ∈ start :: xs, x.isNaN = true ∨ R x c) :
    ((c ∈ xs ∧ ∀ x ∈ xs, x.isNaN = true ∨ R x c) ↔ ∃ x ∈ xs, R start x) ∧
      (c = start ∨ ∃ x ∈ xs, R start x) := by
  have hreach : R start c := (h.2 start List.mem_cons_self).resolve_left (by simp [hstart])
  have hrest : ∀ x ∈ xs, x.isNaN = true ∨ R x c := fun x hx => h.2 x (List.mem_cons_of_mem _ hx)
  refine ⟨⟨fun hextreme => ⟨c, hextreme.1, hreach⟩, ?_⟩, ?_⟩
  · rintro ⟨x, hx, hbeyond⟩
    refine ⟨?_, hrest⟩
    rcases List.mem_cons.1 h.1 with rfl | hc
    · -- The member that reaches the start is the start.
      have hback : R x c := (hrest x hx).resolve_left (by simp [hnumber _ _ hbeyond])
      rwa [hsame x hback hbeyond]
    · exact hc
  · rcases List.mem_cons.1 h.1 with rfl | hc
    · exact Or.inl rfl
    · exact Or.inr ⟨c, hc, hreach⟩

end Binary

open Binary

theorem startMinimum_ne_zero : startMinimum.sameNumber .zero = false := by decide +kernel

theorem startMaximum_ne_zero : startMaximum.sameNumber .zero = false := by decide +kernel

namespace Record

variable {record : Record} {samples : List Single}

/-- Folds batches into a record one after the other. -/
def foldBatches (record : Record) (batches : List (List Single)) : Record :=
  batches.foldl fold record

/-- Folding batches is folding their samples, as far as the count and the extrema tell. -/
theorem Summarizes.foldBatches (h : record.Summarizes samples) (batches : List (List Single)) :
    (record.foldBatches batches).Summarizes (samples ++ batches.flatten) := by
  induction batches generalizing record samples with
  | nil => simpa [Record.foldBatches] using h
  | cons batch rest ih =>
      show ((record.fold batch).foldBatches rest).Summarizes _
      rw [List.flatten_cons, ← List.append_assoc]
      exact ih (h.fold batch)

/-- The minimum is that of the samples if one of them is at most the start, and otherwise it is the
start. -/
theorem Summarizes.isSmallest_iff (h : record.Summarizes samples) :
    (IsSmallest record.minimum samples ↔ ∃ x ∈ samples, x ≤ startMinimum) ∧
      (record.minimum = startMinimum ∨ ∃ x ∈ samples, x ≤ startMinimum) :=
  extreme_without_start (R := fun a b => b ≤ a) (fun _ _ => number_of_le_left)
    (fun _ hle hge => eq_of_sameNumber (sameNumber_iff.2 ⟨hle, hge⟩) startMinimum_ne_zero)
    isNaN_startMinimum h.minimum

/-- The maximum is that of the samples if one of them is at least the start, and otherwise it is the
start. -/
theorem Summarizes.isLargest_iff (h : record.Summarizes samples) :
    (IsLargest record.maximum samples ↔ ∃ x ∈ samples, startMaximum ≤ x) ∧
      (record.maximum = startMaximum ∨ ∃ x ∈ samples, startMaximum ≤ x) :=
  extreme_without_start (R := fun a b => a ≤ b) (fun _ _ => number_of_le_right)
    (fun _ hge hle => eq_of_sameNumber (sameNumber_iff.2 ⟨hle, hge⟩) startMaximum_ne_zero)
    isNaN_startMaximum h.maximum

/-- The minimum is the smallest sample if and only if some sample is at most the start of minima, and
otherwise it is that start; the maximum likewise. In either case the minimum is at most the
maximum. -/
structure Spans (record : Record) (samples : List Single) : Prop where
  smallest_iff : (record.minimum ∈ samples ∧ ∀ x ∈ samples, record.minimum ≤ x) ↔
    ∃ x ∈ samples, x ≤ startMinimum
  largest_iff : (record.maximum ∈ samples ∧ ∀ x ∈ samples, x ≤ record.maximum) ↔
    ∃ x ∈ samples, startMaximum ≤ x
  minimum_eq : (∀ x ∈ samples, startMinimum < x) → record.minimum = startMinimum
  maximum_eq : (∀ x ∈ samples, x < startMaximum) → record.maximum = startMaximum
  ordered : record.minimum ≤ record.maximum

/-- A record that starts empty and receives numbers in any batches spans them. -/
theorem folded_extrema (name : String) {batches : List (List Single)}
    (hsamples : batches.flatten ≠ []) (hnumbers : ∀ x ∈ batches.flatten, x.isNaN = false) :
    (({ name } : Record).foldBatches batches).Spans batches.flatten := by
  have h := (Summarizes.untouched name).foldBatches batches
  rw [List.nil_append] at h
  refine ⟨?_, ?_, ?_, ?_, ?_⟩
  · rw [← h.isSmallest_iff.1]
    refine and_congr_right fun _ => forall₂_congr fun x hx => ?_
    simp [hnumbers x hx]
  · rw [← h.isLargest_iff.1]
    refine and_congr_right fun _ => forall₂_congr fun x hx => ?_
    simp [hnumbers x hx]
  · intro habove
    refine h.isSmallest_iff.2.resolve_right ?_
    rintro ⟨x, hx, hle⟩
    exact not_lt_of_le' hle (habove x hx)
  · intro hbelow
    refine h.isLargest_iff.2.resolve_right ?_
    rintro ⟨x, hx, hle⟩
    exact not_lt_of_le' hle (hbelow x hx)
  · obtain ⟨x, hx⟩ := List.exists_mem_of_ne_nil _ hsamples
    have hmember := List.mem_cons_of_mem startMinimum hx
    exact le_trans' (h.minimum.le hmember (hnumbers x hx))
      (h.maximum.le (List.mem_cons_of_mem startMaximum hx) (hnumbers x hx))

/-- A finite number above the start of minima. -/
def large : Single := .ofDecimal .single false 1 30

/-- One sample between the starts is enough, whatever the others are. -/
theorem small_among_large :
    (Record.foldBatches {} [[large, .zero], [], [large]]).minimum ≤ .zero ∧
      .zero ≤ (Record.foldBatches {} [[large, .zero], [], [large]]).maximum := by
  have hzero : (.zero : Single) ∈ [[large, .zero], [], [large]].flatten := by decide +kernel
  have hnumbers : ∀ x ∈ [[large, .zero], [], [large]].flatten, x.isNaN = false := by
    decide +kernel
  have hspans := folded_extrema "" (List.ne_nil_of_mem hzero) hnumbers
  exact ⟨(hspans.smallest_iff.2 ⟨.zero, hzero, by decide +kernel⟩).2 _ hzero,
    (hspans.largest_iff.2 ⟨.zero, hzero, by decide +kernel⟩).2 _ hzero⟩

/-- The minimum of a record need not be that of its samples: a single large sample leaves it below
itself. -/
theorem large_not_minimum :
    large.isFinite = true ∧ (Record.foldBatches {} [[large]]).count = 1 ∧
      (Record.foldBatches {} [[large]]).minimum = startMinimum ∧
      (Record.foldBatches {} [[large]]).minimum ∉ [large] ∧
      (Record.foldBatches {} [[large]]).maximum = large := by
  refine ⟨?_, ?_, ?_, ?_, ?_⟩ <;> decide +kernel

end Record

end LayerQuant
