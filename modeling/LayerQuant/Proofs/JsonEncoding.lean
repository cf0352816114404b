import Mathlib
import LayerQuant.Json.Encoding
import LayerQuant.Proofs.EncodingLaws
import LayerQuant.Proofs.JsonRoundTrip

/-!
# JSON satisfies the laws of encodings

What is read of a document is its value reread, and so `Encoding.json` has the laws (`laws`).
Whether a number is read back can be computed.
-/

namespace LayerQuant

namespace Json

/-! ## What is reread -/

theorem toNat?_reread {n : Nat} (h : n < Nat.pow 2 64) : (ofNat n).reread.toNat? = some n := by
  rw [ofNat, reread, JsonNumber.reread_natural h]
  rfl

/-- Under a key of its own a member is found alone. -/
theorem filter_key {members : List (String × Json)} {key : String} {value : Json}
    (hnodup : (members.map (·.1)).Nodup) (hmem : (key, value) ∈ members) :
    (members.map fun (key, value) => (some key, value)).filter (·.1 == some key) =
      [(some key, value)] := by
  induction members with
  | nil => cases hmem
  | cons member rest ih =>
      obtain ⟨first, other⟩ := member
      rw [List.map_cons, List.nodup_cons] at hnodup
      obtain ⟨hfirst, hrest⟩ := hnodup
      have hnone : key ∉ rest.map (·.1) →
          (rest.map fun (key, value) => (some key, value)).filter (·.1 == some key) = [] := by
        intro hkey
        rw [List.filter_eq_nil_iff]
        intro member hmember heq
        obtain ⟨⟨later, value⟩, hlater, rfl⟩ := List.mem_map.1 hmember
        obtain rfl : later = key := by simpa using heq
        exact hkey (List.mem_map_of_mem hlater)
      rw [List.map_cons]
      rcases List.mem_cons.1 hmem with heq | hmem
      · cases heq
        rw [List.filter_cons_of_pos (by simp), hnone hfirst]
      · have hne : first ≠ key := by
          rintro rfl
          exact hfirst (List.mem_map.2 ⟨_, hmem, rfl⟩)
        rw [List.filter_cons_of_neg (by simpa using hne), ih hrest hmem]

/-- The values of some members are looked up in order if each is found under its key. -/
theorem mapM_of_keys {lookUp : String × Bool → Option Json} {keys : List (String × Bool)}
    {members : List (String × Json)} (hkeys : keys.map (·.1) = members.map (·.1))
    (h : ∀ key, ∀ member ∈ members, key.1 = member.1 → lookUp key = some member.2) :
    keys.mapM lookUp = some (members.map (·.2)) := by
  induction members generalizing keys with
  | nil =>
      rw [List.map_nil, List.map_eq_nil_iff] at hkeys
      rw [hkeys]
      rfl
  | cons member rest ih =>
      cases keys with
      | nil => cases hkeys
      | cons key keys =>
          obtain ⟨hkey, hrest⟩ : key.1 = member.1 ∧ keys.map (·.1) = rest.map (·.1) :=
            List.cons.inj hkeys
          rw [List.mapM_cons, h key member (List.mem_cons_self ..) hkey,
            ih hrest fun key other hother => h key other (List.mem_cons_of_mem _ hother)]
          rfl

/-- The members of an object with distinct keys are found under them. -/
theorem fields?_ofMembers {keys : List (String × Bool)} {members : List (String × Json)}
    (hnodup : (keys.map (·.1)).Nodup) (hkeys : keys.map (·.1) = members.map (·.1)) :
    (ofMembers members).fields? keys = some (members.map (·.2)) := by
  rw [hkeys] at hnodup
  have hall : (members.map fun (key, value) => (some key, value)).all (·.1.isSome) = true := by
    simp
  rw [ofMembers, fields?, if_pos hall]
  refine mapM_of_keys hkeys ?_
  rintro ⟨_, _⟩ ⟨key, value⟩ hmem rfl
  simp only [filter_key hnodup hmem]

/-! ## Data -/

/-- Items come back one by one. -/
theorem reread_items (parts : List Data) :
    (ofData (.items parts)).reread = array (parts.map fun part => (ofData part).reread) := by
  have hitems : rereadItems (ofItems parts) = parts.map fun part => (ofData part).reread := by
    induction parts with
    | nil => rfl
    | cons part rest ih => rw [ofItems, rereadItems, ih, List.map_cons]
  rw [ofData, reread, hitems]

/-- Members come back under their keys. -/
theorem reread_members (parts : List (String × Data)) :
    (ofData (.members parts)).reread =
      ofMembers (parts.map fun (key, part) => (key, (ofData part).reread)) := by
  have hparts : rereadMembers (ofParts parts) =
      parts.map fun (key, part) => (some key, (ofData part).reread) := by
    induction parts with
    | nil => rfl
    | cons part rest ih =>
        obtain ⟨key, part⟩ := part
        rw [ofParts, rereadMembers, ih]
        rfl
  rw [ofData, reread, hparts, ofMembers, List.map_map]
  rfl

/-- A number that is not finite is written as null. -/
theorem ofSingle_null {x : Single} (h : x.isFinite = false) : ofSingle x = null := by
  cases x with
  | nan => rfl
  | number negative magnitude =>
      have hinfinite : magnitude.isInfinite = true := by simpa [Binary.isFinite] using h
      simp [ofSingle, hinfinite]

theorem toOptionalSingle?_of_toSingle? {value : Json} {x : Single} (h : value.toSingle? = some x) :
    value.toOptionalSingle? = some (some x) := by
  cases value with
  | number n =>
      show ((number n).toSingle?).map some = _
      rw [h]
      rfl
  | _ => cases h

/-! ## The laws -/

/-- Data comes back as its value is reread. -/
theorem rereads_iff {data : Data} {again : Json} :
    Encoding.json.Rereads data again ↔ again = (ofData data).reread := by
  constructor
  · rintro ⟨text, hprint, hparse⟩
    obtain rfl : (ofData data).toIndented = text := Except.ok.inj hprint
    have hread : ofText? (ofData data).toIndented = some again := hparse
    rw [ofText?_toIndented] at hread
    exact (Option.some.inj hread).symm
  · rintro rfl
    exact ⟨_, rfl, ofText?_toIndented _⟩

theorem yields_iff {α : Type} {data : Data} {read : Json → Option α} {result : Option α} :
    Encoding.json.Yields data read result ↔ read (ofData data).reread = result := by
  constructor
  · rintro ⟨again, hrereads, hread⟩
    rwa [rereads_iff.1 hrereads] at hread
  · exact fun h => ⟨_, rereads_iff.2 rfl, h⟩

theorem forall₂_rereads {parts : List Data} {forms : List Json}
    (h : List.Forall₂ Encoding.json.Rereads parts forms) :
    forms = parts.map fun part => (ofData part).reread := by
  induction h with
  | nil => rfl
  | cons hfirst _ ih => rw [rereads_iff.1 hfirst, ih, List.map_cons]

/-- Items are read as they come back. -/
theorem toItems?_reread {parts : List Data} {forms : List Json}
    (h : List.Forall₂ Encoding.json.Rereads parts forms) :
    (ofData (.items parts)).reread.toItems? = some forms := by
  rw [reread_items, forall₂_rereads h]
  rfl

/-- Members with distinct keys are read as they come back. -/
theorem fields?_reread {keys : List (String × Bool)} {parts : List (String × Data)}
    {forms : List Json} (hnodup : (keys.map (·.1)).Nodup)
    (hkeys : keys.map (·.1) = parts.map (·.1))
    (h : List.Forall₂ Encoding.json.Rereads (parts.map (·.2)) forms) :
    (ofData (.members parts)).reread.fields? keys = some forms := by
  have hkept : (parts.map fun (key, part) => (key, (ofData part).reread)).map (·.1) =
      parts.map (·.1) := by
    rw [List.map_map]
    rfl
  rw [reread_members, fields?_ofMembers hnodup (hkeys.trans hkept.symm), forall₂_rereads h,
    List.map_map, List.map_map]
  rfl

/-- JSON is an encoding as the laws have it. -/
theorem laws : Encoding.json.Laws where
  single_null h := congrArg (fun value : Json => Except.ok value.toIndented) (ofSingle_null h)
  null_refused := yields_iff.2 rfl
  null_missing := yields_iff.2 rfl
  optional h := toOptionalSingle?_of_toSingle? h
  nat h := yields_iff.2 (toNat?_reread h)
  bool _ := yields_iff.2 rfl
  text _ := yields_iff.2 rfl
  choice _ := yields_iff.2 rfl
  items _ h := yields_iff.2 (toItems?_reread h)
  members _ hnodup hkeys h := yields_iff.2 (fields?_reread hnodup hkeys h)

/-- Whether a number is read back is seen from its document. -/
theorem readsBack_iff {x : Single} : Encoding.json.ReadsBack x ↔
    (ofText? (ofSingle x).toIndented).bind toSingle? = some x := by
  rw [ofText?_toIndented]
  exact yields_iff

instance (x : Single) : Decidable (Encoding.json.ReadsBack x) :=
  decidable_of_iff _ readsBack_iff.symm

end Json

end LayerQuant
