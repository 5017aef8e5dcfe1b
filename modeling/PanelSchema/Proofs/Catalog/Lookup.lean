import Mathlib.Data.List.DropRight
import PanelSchema.Catalog

/-!
What a path finds. A table whose names have at most two parts is looked up by the last two parts
of a path, and a member of a class is found by its name and by that of the class before its own.
-/

namespace PanelSchema

/-! ### Paths -/

theorem dottedParts_join (p q : String) :
    dottedParts (p ++ "." ++ q) = dottedParts p ++ dottedParts q := by
  have hchars : (p ++ "." ++ q).toList = p.toList ++ '.' :: q.toList := by simp
  rw [dottedParts, hchars, List.splitOn_append_cons_of_beq _ _ (by decide), List.map_append]
  rfl

theorem dottedParts_of_plain {z : String} (h : '.' ∉ z.toList) : dottedParts z = [z] := by
  simp [dottedParts, List.splitOn_eq_singleton h]

theorem dottedParts_intercalate {parts : List String} (hne : parts ≠ [])
    (hplain : ∀ p ∈ parts, '.' ∉ p.toList) : dottedParts (".".intercalate parts) = parts := by
  have hchars : (".".intercalate parts).toList = ['.'].intercalate (parts.map String.toList) :=
    String.toList_intercalate
  rw [dottedParts, hchars, List.splitOn_intercalate _ (by simpa using hplain) (by simpa using hne)]
  simp

private theorem not_mem_of_mem_splitOn {a : Char} (xs : List Char) :
    ∀ part ∈ xs.splitOn a, a ∉ part := by
  unfold List.splitOn
  induction xs with
  | nil => simp
  | cons x xs ih =>
    rw [List.splitOnP_cons_eq_if_modifyHead]
    split
    · simpa using ih
    · rename_i hx
      cases hparts : xs.splitOnP (· == a) with
      | nil => exact absurd hparts (List.splitOnP_ne_nil _ _)
      | cons first rest =>
        rw [hparts, List.forall_mem_cons] at ih
        rw [List.modifyHead_cons, List.forall_mem_cons]
        refine ⟨?_, ih.2⟩
        rw [List.mem_cons, not_or]
        exact ⟨fun h => hx (by simp [h]), ih.1⟩

theorem plain_of_mem_dottedParts {path part : String} (h : part ∈ dottedParts path) :
    '.' ∉ part.toList := by
  obtain ⟨chars, hchars, rfl⟩ := List.mem_map.1 h
  rw [String.toList_ofList]
  exact not_mem_of_mem_splitOn _ chars hchars

theorem intercalate_dottedParts (path : String) : ".".intercalate (dottedParts path) = path := by
  rw [← String.toList_inj, String.toList_intercalate, dottedParts, List.map_map]
  have hparts : String.toList ∘ String.ofList = id := by
    funext cs
    simp
  rw [hparts, List.map_id]
  exact List.intercalate_splitOn '.'

theorem dottedParts_injective {path path' : String} (h : dottedParts path = dottedParts path') :
    path = path' := by
  rw [← intercalate_dottedParts path, h, intercalate_dottedParts]

theorem dottedParts_ne_nil (path : String) : dottedParts path ≠ [] := by
  simp [dottedParts, List.splitOn_ne_nil]

namespace Dict

variable {α : Type}

def Short (d : Dict α) : Prop :=
  ∀ key value, d.get? key = some value → (dottedParts key).length ≤ 2

theorem get?_insertAll (d : Dict α) (keys : List String) (value : α) (key : String) :
    (d.insertAll keys value).get? key = if key ∈ keys then some value else d.get? key := by
  unfold insertAll
  induction keys generalizing d with
  | nil => simp
  | cons k keys ih =>
    rw [List.foldl_cons, ih, get?_insert]
    by_cases hkey : key = k <;> simp [hkey]

end Dict

namespace Catalog

/-- The name that a path is looked up by: its last two parts, or the path itself if it has no
more. -/
def keyOf (path : String) : String :=
  ".".intercalate ((dottedParts path).rtake 2)

theorem dottedParts_keyOf (path : String) :
    dottedParts (keyOf path) = (dottedParts path).rtake 2 := by
  refine dottedParts_intercalate ?_ fun p hp => plain_of_mem_dottedParts (List.mem_of_mem_drop hp)
  have hlength := List.length_pos_of_ne_nil (dottedParts_ne_nil path)
  rw [← List.length_pos_iff, List.rtake, List.length_drop]
  omega

theorem find?_eq_get? {α : Type} {d : Dict α} (hd : d.Short) (path : String) :
    find? d path = d.get? (keyOf path) := by
  have hnone : 2 < (dottedParts path).length → d.get? path = none := by
    intro hlong
    cases hget : d.get? path with
    | none => rfl
    | some value => exact absurd (hd path value hget) (by omega)
  have hshort : (dottedParts path).length ≤ 2 → keyOf path = path := by
    intro hle
    rw [keyOf, List.rtake, Nat.sub_eq_zero_of_le hle, List.drop_zero, intercalate_dottedParts]
  unfold find?
  cases hparts : (dottedParts path).reverse with
  | nil => exact absurd (List.reverse_eq_nil_iff.1 hparts) (dottedParts_ne_nil path)
  | cons last parts =>
    have hlength := congrArg List.length hparts
    rw [List.length_reverse] at hlength
    match parts with
    | [] | [_] =>
      rw [hshort (by simp [hlength])]
      cases d.get? path <;> rfl
    | previous :: first :: rest =>
      have hkeyOf : keyOf path = previous ++ "." ++ last := by
        rw [keyOf, List.rtake_eq_reverse_take_reverse, hparts]
        simp
      rw [hnone (by simp [hlength]), hkeyOf]

theorem find?_empty {α : Type} (path : String) : find? ({} : Dict α) path = none := by
  rw [find?_eq_get? (d := {}) fun _ _ h => nomatch h]
  rfl

theorem enumValue?_of_parts {c : Catalog} {path last : String} {type : List String}
    (h : dottedParts path = type ++ [last]) (hne : type ≠ []) :
    c.enumValue? path = (c.enum? (".".intercalate type)).bind (·.valueOf? last) := by
  unfold enumValue?
  rw [h, List.reverse_append]
  cases htype : type.reverse with
  | nil => exact absurd (List.reverse_eq_nil_iff.1 htype) hne
  | cons first rest =>
    have hback : (first :: rest).reverse = type := by rw [← htype, List.reverse_reverse]
    rw [← hback]
    rfl

theorem enumValue?_of_empty {c : Catalog} (h : c.enums = {}) (path : String) :
    c.enumValue? path = none := by
  unfold enumValue? enum?
  rw [h]
  split
  · rw [find?_empty]
    rfl
  · rfl

/-! ### Members of a class -/

theorem mem_keysFor_iff {name owner key : String} (hname : '.' ∉ name.toList)
    (howner : '.' ∉ owner.toList) :
    key ∈ keysFor name (some owner) ↔
      dottedParts key = [name] ∨ dottedParts key = [owner, name] := by
  have hbare := dottedParts_of_plain hname
  have hqualified : dottedParts (owner ++ "." ++ name) = [owner, name] := by
    rw [dottedParts_join, hbare, dottedParts_of_plain howner]
    rfl
  simp only [keysFor, List.mem_cons, List.not_mem_nil, or_false]
  constructor
  · rintro (rfl | rfl)
    · exact .inl hbare
    · exact .inr hqualified
  · rintro (h | h)
    · exact .inl (dottedParts_injective (h.trans hbare.symm))
    · exact .inr (dottedParts_injective (h.trans hqualified.symm))

theorem length_dottedParts_le {name owner key : String} (hname : '.' ∉ name.toList)
    (howner : '.' ∉ owner.toList) (h : key ∈ keysFor name (some owner)) :
    (dottedParts key).length ≤ 2 := by
  rcases (mem_keysFor_iff hname howner).1 h with h | h <;> simp [h]

/-- The path is the name, or ends in that of the class and the name. -/
def Names (owner name path : String) : Prop :=
  dottedParts path = [name] ∨ ∃ before, dottedParts path = before ++ [owner, name]

theorem names_iff {owner name path : String} (howner : '.' ∉ owner.toList)
    (hname : '.' ∉ name.toList) :
    Names owner name path ↔ keyOf path ∈ keysFor name (some owner) := by
  rw [mem_keysFor_iff hname howner, dottedParts_keyOf]
  refine or_congr ⟨fun h => ?_, fun h => ?_⟩ ⟨?_, fun h => ?_⟩
  · rw [h]
    rfl
  · have hlength := congrArg List.length h
    rw [List.rtake, List.length_drop, List.length_singleton] at hlength
    rwa [List.rtake, Nat.sub_eq_zero_of_le (by omega), List.drop_zero] at h
  · rintro ⟨before, h⟩
    simp [h, List.rtake_eq_reverse_take_reverse]
  · refine ⟨(dottedParts path).rdrop 2, ?_⟩
    rw [← h]
    exact (List.take_append_drop _ _).symm

theorem eq_of_mem_keysFor {name name' owner key : String} (hname : '.' ∉ name.toList)
    (hname' : '.' ∉ name'.toList) (howner : '.' ∉ owner.toList)
    (h : key ∈ keysFor name (some owner)) (h' : key ∈ keysFor name' (some owner)) :
    name = name' := by
  rw [mem_keysFor_iff hname howner] at h
  rw [mem_keysFor_iff hname' howner] at h'
  rcases h with h | h <;> rcases h' with h' | h' <;> simp_all

end Catalog

end PanelSchema
