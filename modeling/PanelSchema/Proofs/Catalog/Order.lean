import PanelSchema.Proofs.Catalog.Numbers

/-!
The order of the members of a class. Texts, numbers and routines do not depend on it. The tables
do not if and only if no caption and no enum is read differently after some of the other members
than on its own.
-/

namespace PanelSchema.Catalog

open Syntax (Expr Decl SourceTree)

/-- The two hold the same, kind by kind and name by name. -/
structure Agrees (c c' : Catalog) : Prop where
  strings : ∀ key, c.strings.get? key = c'.strings.get? key
  numbers : ∀ key, c.numbers.get? key = c'.numbers.get? key
  captions : ∀ key, c.captions.get? key = c'.captions.get? key
  lists : ∀ key, c.lists.get? key = c'.lists.get? key
  enums : ∀ key, c.enums.get? key = c'.enums.get? key
  routines : ∀ key, c.routines.get? key = c'.routines.get? key

/-- The caption or the enum that the member gives is the one that it gives on its own. -/
structure ReadsAlone (c : Catalog) (d : Decl) : Prop where
  caption : (valueOf? d).bind c.captionOf? = (valueOf? d).bind ({} : Catalog).captionOf?
  enumDef : c.enumOf? d = ({} : Catalog).enumOf? d

/-! ### Tables -/

namespace IsTable

variable {α : Type} {table : Catalog → Dict α} {entry : Catalog → Decl → Option α}
  {owner key : String} {ms : List Decl}

theorem exists_mem (ht : IsTable table entry) (hms : Members owner ms) {value : α}
    (h : (table (collected owner ms).1).get? key = some value) :
    ∃ d ∈ ms, key ∈ keysFor (memberName d) (some owner) := by
  by_contra hnone
  rw [ht.get?_eq_none hms fun d hd hkey => hnone ⟨d, hd, hkey⟩] at h
  cases h

theorem short (ht : IsTable table entry) (hms : Members owner ms) :
    (table (collected owner ms).1).Short := by
  intro key value h
  obtain ⟨d, hd, hkey⟩ := ht.exists_mem hms h
  exact length_dottedParts_le (hms.plain d hd) hms.owner_plain hkey

theorem get?_append (ht : IsTable table entry) {before after : List Decl}
    (hms : Members owner (before ++ after)) (hnodup : ((before ++ after).map memberName).Nodup)
    {value : α} (h : (table (collected owner before).1).get? key = some value) :
    (table (collected owner (before ++ after)).1).get? key = some value := by
  have hbefore : Members owner before := hms.of_subset (by simp +contextual)
  obtain ⟨d, hd, hkey⟩ := ht.exists_mem hbefore h
  obtain ⟨first, last, rfl⟩ := List.append_of_mem hd
  rw [List.map_append] at hnodup
  rw [ht.get?_collected hbefore hnodup.of_append_left hkey] at h
  rw [← List.map_append, List.append_assoc, List.cons_append] at hnodup
  rw [List.append_assoc, List.cons_append] at hms ⊢
  rw [ht.get?_collected hms hnodup hkey, h]

theorem get?_collected_iff (ht : IsTable table entry) (hms : Members owner ms)
    (hnodup : (ms.map memberName).Nodup)
    (halone : ∀ before d after, ms = before ++ d :: after →
      entry (collected owner before).1 d = entry {} d) {value : α} :
    (table (collected owner ms).1).get? key = some value ↔
      ∃ d ∈ ms, key ∈ keysFor (memberName d) (some owner) ∧ entry {} d = some value := by
  constructor
  · intro h
    obtain ⟨d, hd, hkey⟩ := ht.exists_mem hms h
    obtain ⟨before, after, rfl⟩ := List.append_of_mem hd
    rw [ht.get?_collected hms hnodup hkey, halone before d after rfl] at h
    exact ⟨d, hd, hkey, h⟩
  · rintro ⟨d, hd, hkey, hvalue⟩
    obtain ⟨before, after, rfl⟩ := List.append_of_mem hd
    rw [ht.get?_collected hms hnodup hkey, halone before d after rfl, hvalue]

theorem get?_perm (ht : IsTable table entry) (hms : Members owner ms)
    (hnodup : (ms.map memberName).Nodup)
    (halone : ∀ before d after, (before ++ d :: after).Perm ms →
      entry (collected owner before).1 d = entry {} d) {ms' : List Decl} (hperm : ms'.Perm ms) :
    (table (collected owner ms').1).get? key = (table (collected owner ms).1).get? key := by
  have hms' : Members owner ms' := hms.of_subset fun d hd => hperm.mem_iff.1 hd
  have hnodup' : (ms'.map memberName).Nodup := (hperm.map _).nodup_iff.2 hnodup
  refine Option.ext fun value => ?_
  rw [ht.get?_collected_iff hms' hnodup' fun before d after h => halone before d after (h ▸ hperm),
    ht.get?_collected_iff hms hnodup fun before d after h => halone before d after (h ▸ .refl _)]
  simp only [hperm.mem_iff]

end IsTable

/-! ### Enums and numbers -/

theorem find?_congr {α : Type} {d d' : Dict α} (h : ∀ key, d.get? key = d'.get? key)
    (path : String) : find? d path = find? d' path := by
  unfold find?
  rw [h path]
  split
  · rfl
  · split
    · exact h _
    · rfl

theorem enumValue?_congr {c c' : Catalog} (h : ∀ key, c.enums.get? key = c'.enums.get? key) :
    c.enumValue? = c'.enumValue? := by
  funext path
  unfold enumValue? enum?
  split
  · rw [find?_congr h]
  · rfl

theorem enumValue?_mono {c c' : Catalog} (hc : c.enums.Short) (hc' : c'.enums.Short)
    (hle : ∀ key e, c.enums.get? key = some e → c'.enums.get? key = some e) {path : String}
    {n : Int} (h : c.enumValue? path = some n) : c'.enumValue? path = some n := by
  unfold enumValue? enum? at h ⊢
  split at h
  · obtain ⟨e, he, hn⟩ := Option.bind_eq_some_iff.1 h
    rw [find?_eq_get? hc] at he
    rw [find?_eq_get? hc', hle _ e he]
    exact hn
  · cases h

/-- The enums of the catalog are some of those of the class. -/
def EnumsFrom (owner : String) (ms : List Decl) (c : Catalog) : Prop :=
  ∀ key e, c.enums.get? key = some e →
    ∃ d ∈ ms, isEnum d = true ∧ key ∈ keysFor (memberName d) (some owner)

section

variable {owner : String} {ms : List Decl} (hms : Members owner ms)

include hms

theorem EnumsFrom.short {c : Catalog} (hc : EnumsFrom owner ms c) : c.enums.Short := by
  intro key e h
  obtain ⟨d, hd, -, hkey⟩ := hc key e h
  exact length_dottedParts_le (hms.plain d hd) hms.owner_plain hkey

theorem EnumsFrom.exists_enum {c : Catalog} (hc : EnumsFrom owner ms c) {path : String} {n : Int}
    (h : c.enumValue? path = some n) :
    ∃ d ∈ ms, isEnum d = true ∧ ∃ before last,
      dottedParts path = before ++ [memberName d, last] := by
  obtain ⟨type, last, hparts⟩ := (List.eq_nil_or_concat (dottedParts path)).resolve_left
    (dottedParts_ne_nil path)
  rw [List.concat_eq_append] at hparts
  have hne : type ≠ [] := by
    rintro rfl
    simp [enumValue?, hparts] at h
  rw [enumValue?_of_parts hparts hne] at h
  obtain ⟨e, he, -⟩ := Option.bind_eq_some_iff.1 h
  rw [enum?, find?_eq_get? (hc.short hms)] at he
  obtain ⟨d, hd, henum, hkey⟩ := hc _ e he
  refine ⟨d, hd, henum, ?_⟩
  have hmem : ∀ p ∈ type, p ∈ dottedParts path := by
    intro p hp
    rw [hparts]
    exact List.mem_append_left _ hp
  have htype : dottedParts (".".intercalate type) = type :=
    dottedParts_intercalate hne fun p hp => plain_of_mem_dottedParts (hmem p hp)
  rw [← names_iff hms.owner_plain (hms.plain d hd), Names, htype] at hkey
  rcases hkey with rfl | ⟨before, rfl⟩
  · exact ⟨[], last, hparts⟩
  · exact ⟨before ++ [owner], last, by rw [hparts]; simp⟩

variable (hnodup : (ms.map memberName).Nodup)
  (howner : ∀ d ∈ ms, isEnum d = true → memberName d ≠ owner)

include hnodup

theorem enumsFrom_collected : EnumsFrom owner ms (collected owner ms).1 := by
  intro key e he
  obtain ⟨d, hd, hkey⟩ := isTable_enums.exists_mem hms he
  refine ⟨d, hd, ?_, hkey⟩
  obtain ⟨before, after, rfl⟩ := List.append_of_mem hd
  rw [isTable_enums.get?_collected hms hnodup hkey] at he
  cases d with
  | enumDecl => rfl
  | _ => cases he

theorem enumValue?_append {before after : List Decl} (hsplit : ms = before ++ after)
    {path : String} {n : Int} (h : (collected owner before).1.enumValue? path = some n) :
    (collected owner ms).1.enumValue? path = some n := by
  subst hsplit
  have hbefore : Members owner before := hms.of_subset (by simp +contextual)
  exact enumValue?_mono (isTable_enums.short hbefore) (isTable_enums.short hms)
    (fun key e he => isTable_enums.get?_append hms hnodup he) h

include howner

/-- Where no enum has the name of the class, no path names a field and a member of an enum. -/
theorem EnumsFrom.unambiguous {c : Catalog} (hc : EnumsFrom owner ms c) :
    Unambiguous (fieldsOf owner ms) c.enumValue? := by
  refine unambiguous_fieldsOf hms (hnodup.sublist (List.filter_sublist.map _)) ?_
  intro path n h d hd hkey
  obtain ⟨e, he, henum, before, last, hparts⟩ := hc.exists_enum hms h
  rw [← names_iff hms.owner_plain (hms.plain d hd), Names, hparts] at hkey
  rcases hkey with hkey | ⟨before', hkey⟩
  · simpa using congrArg List.length hkey
  · have heq := List.append_inj_right' hkey rfl
    exact howner e he henum (List.head_eq_of_cons_eq heq)

theorem get?_numbers_ofTree (m m' : Syntax.Mark) (attributes : List Syntax.Attribute)
    (key : String) (x : Float) :
    (ofTree (classTree m m' attributes owner ms)).numbers.get? key = some x ↔
      ∃ p ∈ fieldsOf owner ms, key ∈ p.keys ∧
        Derives (fieldsOf owner ms) (collected owner ms).1.enumValue? p.value x :=
  get?_numbers_class hms ((enumsFrom_collected hms hnodup).unambiguous hms hnodup howner)
    (fun _ _ hsplit _ _ h => enumValue?_append hms hnodup hsplit h)
    (settles_ofTree m m' attributes owner ms)

end

/-! ### All orders -/

section

variable {owner : String} {ms : List Decl} (hms : Members owner ms)
  (hnodup : (ms.map memberName).Nodup)
  (howner : ∀ d ∈ ms, isEnum d = true → memberName d ≠ owner)
  (m m' : Syntax.Mark) (attributes : List Syntax.Attribute)

include hms hnodup

theorem readsAlone_of_agrees
    (h : ∀ ms', ms'.Perm ms → Agrees (ofTree (classTree m m' attributes owner ms'))
      (ofTree (classTree m m' attributes owner ms)))
    {before after : List Decl} {d : Decl} (hperm : (before ++ d :: after).Perm ms) :
    ReadsAlone (collected owner before).1 d := by
  have hfirst : (d :: (before ++ after)).Perm ms := List.perm_middle.symm.trans hperm
  have hframe := fun ms => (settles_ofTree m m' attributes owner ms).frame
  have hkey : memberName d ∈ keysFor (memberName d) (some owner) := List.mem_cons_self
  have hmembers : ∀ ms', ms'.Perm ms → Members owner ms' ∧ (ms'.map memberName).Nodup :=
    fun ms' hperm => ⟨hms.of_subset fun d hd => hperm.mem_iff.1 hd,
      (hperm.map _).nodup_iff.2 hnodup⟩
  have hentry : ∀ {α : Type} {table : Catalog → Dict α} {entry : Catalog → Decl → Option α},
      IsTable table entry →
      (table (collected owner (before ++ d :: after)).1).get? (memberName d) =
        (table (collected owner (d :: (before ++ after))).1).get? (memberName d) →
      entry (collected owner before).1 d = entry {} d := by
    intro α table entry ht hagrees
    rw [ht.get?_collected (hmembers _ hperm).1 (hmembers _ hperm).2 hkey] at hagrees
    have hfirst : (table (collected owner ([] ++ d :: (before ++ after))).1).get? (memberName d) =
        entry (collected owner []).1 d :=
      ht.get?_collected (hmembers _ hfirst).1 (hmembers _ hfirst).2 hkey
    exact hagrees.trans hfirst
  have hagrees := h _ hperm
  have hagrees' := h _ hfirst
  rw [hframe (before ++ d :: after)] at hagrees
  rw [hframe (d :: (before ++ after))] at hagrees'
  exact ⟨hentry isTable_captions ((hagrees.captions _).trans (hagrees'.captions _).symm),
    hentry isTable_enums ((hagrees.enums _).trans (hagrees'.enums _).symm)⟩

include howner

theorem agrees_of_readsAlone
    (h : ∀ before d after, (before ++ d :: after).Perm ms → ReadsAlone (collected owner before).1 d)
    {ms' : List Decl} (hperm : ms'.Perm ms) :
    Agrees (ofTree (classTree m m' attributes owner ms'))
      (ofTree (classTree m m' attributes owner ms)) := by
  have hms' : Members owner ms' := hms.of_subset fun d hd => hperm.mem_iff.1 hd
  have hnodup' : (ms'.map memberName).Nodup := (hperm.map _).nodup_iff.2 hnodup
  have hframe := fun ms => (settles_ofTree m m' attributes owner ms).frame
  have henums : ∀ key, (collected owner ms').1.enums.get? key =
      (collected owner ms).1.enums.get? key := fun key =>
    isTable_enums.get?_perm hms hnodup (fun before d after hp => (h before d after hp).enumDef)
      hperm
  have hnumbers : ∀ key, (ofTree (classTree m m' attributes owner ms')).numbers.get? key =
      (ofTree (classTree m m' attributes owner ms)).numbers.get? key := by
    intro key
    have hfields : ∀ p, p ∈ fieldsOf owner ms' ↔ p ∈ fieldsOf owner ms := by
      intro p
      simp only [mem_fieldsOf, hperm.mem_iff]
    refine Option.ext fun x => ?_
    rw [get?_numbers_ofTree hms' hnodup' fun d hd => howner d (hperm.mem_iff.1 hd),
      get?_numbers_ofTree hms hnodup howner, enumValue?_congr henums]
    constructor
    · rintro ⟨p, hp, hkey, hx⟩
      exact ⟨p, (hfields p).1 hp, hkey, hx.mono (fun q hq => (hfields q).1 hq) fun _ _ hn => hn⟩
    · rintro ⟨p, hp, hkey, hx⟩
      exact ⟨p, (hfields p).2 hp, hkey, hx.mono (fun q hq => (hfields q).2 hq) fun _ _ hn => hn⟩
  have hcaptions : ∀ before d after, (before ++ d :: after).Perm ms →
      (valueOf? d).bind (collected owner before).1.captionOf? =
        (valueOf? d).bind ({} : Catalog).captionOf? :=
    fun before d after hp => (h before d after hp).caption
  have hlists : ∀ before d after, (before ++ d :: after).Perm ms →
      (valueOf? d).bind (collected owner before).1.listOf? =
        (valueOf? d).bind ({} : Catalog).listOf? := by
    intro before d after hp
    have hcaption := hcaptions before d after hp
    cases hvalue : valueOf? d with
    | none => rfl
    | some value =>
      rw [hvalue, Option.bind_some, Option.bind_some] at hcaption
      rw [Option.bind_some, Option.bind_some, listOf?, listOf?, hcaption]
  refine ⟨fun key => ?_, hnumbers, fun key => ?_, fun key => ?_, fun key => ?_, fun key => ?_⟩ <;>
    rw [hframe ms, hframe ms']
  · exact isTable_strings.get?_perm hms hnodup (fun _ _ _ _ => rfl) hperm
  · exact isTable_captions.get?_perm hms hnodup hcaptions hperm
  · exact isTable_lists.get?_perm hms hnodup hlists hperm
  · exact henums key
  · exact isTable_routines.get?_perm hms hnodup (fun _ _ _ _ => rfl) hperm

end

end PanelSchema.Catalog
