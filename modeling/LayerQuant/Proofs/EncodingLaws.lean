import Mathlib
import LayerQuant.Pipeline.Encoding

/-!
# Laws of encodings

`Laws` is what results on printed data rely on: what is read from the text of a single value, and
that the parts of a list or of members come back one by one unless they are nested too deep. It does
not say that a finite number comes back. That is `ReadsBack`, which is asked of each number on its
own. Read `Yields` and `Laws` first.
-/

namespace LayerQuant

namespace Data

/-- The parts of the data are nested at most so deep. -/
def Nests : Nat → Data → Prop
  | 0, items _ => False
  | 0, members _ => False
  | depth + 1, items parts => ∀ part ∈ parts, part.Nests depth
  | depth + 1, members parts => ∀ part ∈ parts, part.2.Nests depth
  | _, _ => True

/-- An encoding need not parse parts that are nested deeper. -/
def depthLimit : Nat := 127

theorem nests_ofSingle? (x? : Option Single) (depth : Nat) : (ofSingle? x?).Nests depth := by
  cases x? <;> cases depth <;> trivial

end Data

namespace Encoding

variable (encoding : Encoding) {α : Type}

/-- The data is printed, and its text is parsed to the form. -/
def Rereads (data : Data) (form : encoding.Form) : Prop :=
  ∃ text, encoding.print data = .ok text ∧ encoding.parse? text = some form

/-- The data is printed, and this is what is read from its text. -/
def Yields (data : Data) (read : encoding.Form → Option α) (result : Option α) : Prop :=
  ∃ form, encoding.Rereads data form ∧ read form = result

/-- The number is read back from what is printed for it. -/
def ReadsBack (x : Single) : Prop := encoding.Yields (.single x) encoding.toSingle? (some x)

/-- What is relied on of an encoding. -/
structure Laws : Prop where
  /-- A number that is not finite is printed as null. -/
  single_null : ∀ {x : Single}, x.isFinite = false →
    encoding.print (.single x) = encoding.print .null
  /-- Null is refused as a number that must be there. -/
  null_refused : encoding.Yields .null encoding.toSingle? none
  /-- Null is no number where one may be missing. -/
  null_missing : encoding.Yields .null encoding.toOptionalSingle? (some none)
  /-- A number that may be missing is read like any other where it is there. -/
  optional : ∀ {form x}, encoding.toSingle? form = some x →
    encoding.toOptionalSingle? form = some (some x)
  nat : ∀ {n}, n < Nat.pow 2 64 → encoding.Yields (.nat n) encoding.toNat? (some n)
  bool : ∀ value, encoding.Yields (.bool value) encoding.toBool? (some value)
  text : ∀ text, encoding.Yields (.text text) encoding.toText? (some text)
  choice : ∀ name, encoding.Yields (.choice name) encoding.toChoice? (some name)
  items : ∀ {parts forms}, (Data.items parts).Nests Data.depthLimit →
    List.Forall₂ encoding.Rereads parts forms →
      encoding.Yields (.items parts) encoding.toItems? (some forms)
  /-- Members come back under distinct keys in the order in which they were printed. -/
  members : ∀ {keys parts forms}, (Data.members parts).Nests Data.depthLimit →
    (keys.map (·.1)).Nodup → keys.map (·.1) = parts.map (·.1) →
      List.Forall₂ encoding.Rereads (parts.map (·.2)) forms →
        encoding.Yields (.members parts) (encoding.toMembers? keys) (some forms)

variable {encoding}

/-- What is printed alike is read alike. -/
theorem Yields.of_print_eq {data other : Data} {read : encoding.Form → Option α}
    {result : Option α} (h : encoding.Yields other read result)
    (hprint : encoding.print data = encoding.print other) : encoding.Yields data read result := by
  obtain ⟨form, ⟨text, htext, hparse⟩, hread⟩ := h
  exact ⟨form, ⟨text, hprint.trans htext, hparse⟩, hread⟩

namespace Laws

variable (laws : encoding.Laws)
include laws

/-- Where a number must stand, exactly the finite ones are read. -/
theorem single {x : Single} (h : x.isFinite = true → encoding.ReadsBack x) :
    encoding.Yields (.single x) encoding.toSingle? (if x.isFinite = true then some x else none) := by
  cases hfinite : x.isFinite with
  | true => exact h hfinite
  | false => exact laws.null_refused.of_print_eq (laws.single_null hfinite)

/-- Where a number may be missing, those that are not finite go missing. -/
theorem single? (x? : Option Single) (h : ∀ x ∈ x?, x.isFinite = true → encoding.ReadsBack x) :
    encoding.Yields (.ofSingle? x?) encoding.toOptionalSingle?
      (some (x?.filter (·.isFinite))) := by
  cases x? with
  | none => exact laws.null_missing
  | some x =>
      cases hfinite : x.isFinite with
      | true =>
          obtain ⟨form, hrereads, hread⟩ := h x rfl hfinite
          refine ⟨form, hrereads, ?_⟩
          rw [laws.optional hread]
          simp [Option.filter, hfinite]
      | false =>
          have hmissing : encoding.Yields (.ofSingle? (some x)) encoding.toOptionalSingle?
              (some none) :=
            laws.null_missing.of_print_eq (laws.single_null hfinite)
          simpa [Option.filter, hfinite] using hmissing

/-- A list comes back if each of its items does. -/
theorem list {p : α → Prop} [DecidablePred p] {f : α → α} {write : α → Data}
    {read : encoding.Form → Option α} {items : List α}
    (hnests : (Data.items (items.map write)).Nests Data.depthLimit)
    (h : ∀ item ∈ items,
      encoding.Yields (write item) read (if p item then some (f item) else none)) :
    encoding.Yields (.items (items.map write)) (encoding.toList? read)
      (if ∀ item ∈ items, p item then some (items.map f) else none) := by
  have hforms : ∃ forms, List.Forall₂ encoding.Rereads (items.map write) forms ∧
      forms.mapM read = if ∀ item ∈ items, p item then some (items.map f) else none := by
    clear hnests
    induction items with
    | nil => exact ⟨[], .nil, by simp⟩
    | cons item rest ih =>
        obtain ⟨form, hrereads, hread⟩ := h item (List.mem_cons_self ..)
        obtain ⟨forms, hrest, hreads⟩ := ih fun other hother =>
          h other (List.mem_cons_of_mem _ hother)
        refine ⟨form :: forms, .cons hrereads hrest, ?_⟩
        rw [List.mapM_cons, hread, hreads]
        by_cases hitem : p item
        · by_cases hrest : ∀ other ∈ rest, p other
          · rw [if_pos hitem, if_pos hrest, if_pos (List.forall_mem_cons.2 ⟨hitem, hrest⟩)]
            rfl
          · rw [if_pos hitem, if_neg hrest, if_neg fun h => hrest (List.forall_mem_cons.1 h).2]
            rfl
        · rw [if_neg hitem, if_neg fun h => hitem (List.forall_mem_cons.1 h).1]
          rfl
  obtain ⟨forms, hrereads, hreads⟩ := hforms
  obtain ⟨form, hform, hitems⟩ := laws.items hnests hrereads
  refine ⟨form, hform, ?_⟩
  rw [toList?, hitems]
  exact hreads

/-- What is decoded from members is decoded from the forms that they come back as. -/
theorem record (keys : List (String × Bool)) {parts : List (String × Data)}
    {forms : List encoding.Form} {decode : encoding.Form → Option α} {result : Option α}
    (hnests : (Data.members parts).Nests Data.depthLimit) (hnodup : (keys.map (·.1)).Nodup)
    (hkeys : keys.map (·.1) = parts.map (·.1))
    (hforms : List.Forall₂ encoding.Rereads (parts.map (·.2)) forms)
    (hdecode : ∀ form, encoding.toMembers? keys form = some forms → decode form = result) :
    encoding.Yields (.members parts) decode result := by
  obtain ⟨form, hform, hmembers⟩ := laws.members hnests hnodup hkeys hforms
  exact ⟨form, hform, hdecode form hmembers⟩

end Laws

end Encoding

end LayerQuant
