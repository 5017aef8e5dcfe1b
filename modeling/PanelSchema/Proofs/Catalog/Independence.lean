import PanelSchema.Proofs.Catalog.Order

/-!
When the order of the members of a class does not matter. The tables are the same for every order
if and only if each caption and each enum, read with what the other members tell of themselves, is
what it is on its own. So it is enough to read each member once.
-/

namespace PanelSchema.Catalog

open Syntax (Expr Decl EnumMember)

instance (c : Catalog) (d : Decl) : Decidable (ReadsAlone c d) :=
  decidable_of_iff
    ((valueOf? d).bind c.captionOf? = (valueOf? d).bind ({} : Catalog).captionOf? ∧
      c.enumOf? d = ({} : Catalog).enumOf? d)
    ⟨fun h => ⟨h.1, h.2⟩, fun h => ⟨h.caption, h.enumDef⟩⟩

/-! ### Reading with less -/

/-- Whatever is read with the one is read as with the other, or as with nothing known. -/
structure Within (c c' : Catalog) : Prop where
  texts : ∀ e, c.evalString? e = c'.evalString? e ∨
    c.evalString? e = ({} : Catalog).evalString? e
  numbers : ∀ e, c.evalNumber? e = c'.evalNumber? e ∨
    c.evalNumber? e = ({} : Catalog).evalNumber? e

section

variable {c c' : Catalog}

theorem Within.caption (h : Within c c') {e : Expr}
    (he : c'.captionOf? e = ({} : Catalog).captionOf? e) :
    c.captionOf? e = ({} : Catalog).captionOf? e := by
  have hbind : ∀ arg : Option Expr, arg.bind c.evalString? = arg.bind c'.evalString? ∨
      arg.bind c.evalString? = arg.bind ({} : Catalog).evalString? := by
    rintro (_ | e)
    · exact .inl rfl
    · exact h.texts e
  cases e with
  | new m type args initializer =>
    cases type with
    | none => rfl
    | some type =>
      unfold captionOf? at he ⊢
      dsimp only at he ⊢
      split
      · rename_i hcaption
        rw [if_pos hcaption, if_pos hcaption] at he
        have hlabel := hbind args.head?
        have htooltip := hbind args[1]?
        cases hlabel' : args.head?.bind c'.evalString? with
        | none =>
          have hnone : args.head?.bind ({} : Catalog).evalString? = none := by
            simpa [hlabel'] using he.symm
          rw [hlabel', hnone, or_self] at hlabel
          rw [hlabel, hnone]
          rfl
        | some label =>
          rw [hlabel', Option.map_some] at he
          obtain ⟨label₀, hlabel₀, hsame⟩ := Option.map_eq_some_iff.1 he.symm
          rw [Caption.mk.injEq] at hsame
          rw [hlabel', hlabel₀, hsame.1, or_self] at hlabel
          rw [hsame.2, or_self] at htooltip
          rw [hlabel, hlabel₀, hsame.1, hsame.2, htooltip]
      · rfl
  | _ => rfl

theorem earlier_prefix_enumCases (c : Catalog) (members : List EnumMember)
    (earlier : List EnumCase) (next : Int) : earlier <+: c.enumCases members earlier next := by
  induction members generalizing earlier next with
  | nil => exact List.prefix_rfl
  | cons m rest ih =>
    rw [enumCases]
    exact (List.prefix_append _ _).trans (ih _ _)

theorem Within.explicitValue (h : Within c c') (earlier : List EnumCase) (value : Option Expr) :
    value.bind (c.explicitValue? earlier) = value.bind (c'.explicitValue? earlier) ∨
      value.bind (c.explicitValue? earlier) =
        value.bind (({} : Catalog).explicitValue? earlier) := by
  cases value with
  | none => exact .inl rfl
  | some e =>
    simp only [Option.bind_some, explicitValue?]
    exact (h.numbers e).imp (fun h => by rw [h]) fun h => by rw [h]

theorem Within.enumCases (h : Within c c') (members : List EnumMember) {earlier : List EnumCase}
    {next : Int} (he : c'.enumCases members earlier next =
      ({} : Catalog).enumCases members earlier next) :
    c.enumCases members earlier next = ({} : Catalog).enumCases members earlier next := by
  induction members generalizing earlier next with
  | nil => rfl
  | cons m rest ih =>
    rw [Catalog.enumCases, Catalog.enumCases] at he ⊢
    have hvalue : (m.value.bind (c'.explicitValue? earlier)).getD next =
        (m.value.bind (({} : Catalog).explicitValue? earlier)).getD next := by
      have hle := earlier_prefix_enumCases c' rest
      have hle' := earlier_prefix_enumCases {} rest
      have hsame := (List.prefix_of_prefix_length_le (he ▸ hle _ _) (hle' _ _)
        (by simp)).eq_of_length (by simp)
      simpa using hsame
    rw [hvalue] at he
    rcases h.explicitValue earlier m.value with hread | hread
    · rw [hread, hvalue]
      exact ih he
    · rw [hread]
      exact ih he

theorem Within.readsAlone (h : Within c c') {d : Decl} (hd : ReadsAlone c' d) :
    ReadsAlone c d where
  caption := by
    have hcaption := hd.caption
    cases hvalue : valueOf? d with
    | none => rfl
    | some value =>
      rw [hvalue] at hcaption
      exact h.caption hcaption
  enumDef := by
    have hdef := hd.enumDef
    cases d with
    | enumDecl m attributes name members =>
      simp only [enumOf?, Catalog.enumDef, Option.some.injEq, EnumDef.mk.injEq, true_and]
        at hdef ⊢
      exact h.enumCases members hdef
    | _ => rfl

theorem evalNumber?_mono
    (hle : ∀ path x, (c.number? path).or ((c.enumValue? path).map Float.ofInt) = some x →
      (c'.number? path).or ((c'.enumValue? path).map Float.ofInt) = some x) :
    ∀ (e : Expr) (x : Float), c.evalNumber? e = some x → c'.evalNumber? e = some x
  | .integer m n, x, h | .float m y, x, h => by simpa [evalNumber?] using h
  | .unary m .minus e, x, h => by
    rw [evalNumber?] at h
    obtain ⟨y, hy, rfl⟩ := Option.map_eq_some_iff.1 h
    rw [evalNumber?, evalNumber?_mono hle e y hy, Option.map_some]
  | .unary m .plus e, x, h | .cast m type e, x, h => by
    rw [evalNumber?] at h ⊢
    exact evalNumber?_mono hle e x h
  | .name m name, x, h => by
    rw [evalNumber?_of_dotted _ rfl] at h ⊢
    exact hle name x h
  | .member m object name, x, h => by
    cases hpath : (Expr.member m object name).dotted? with
    | none => simp [evalNumber?, hpath] at h
    | some path =>
      rw [evalNumber?_of_dotted _ hpath] at h ⊢
      exact hle path x h
  | .unary _ .inc _, x, h | .unary _ .dec _, x, h | .unary _ .not _, x, h
  | .unary _ .bitNot _, x, h | .binary .., x, h | .assign .., x, h | .conditional .., x, h
  | .call .., x, h | .index .., x, h | .new .., x, h | .typeOf .., x, h | .string .., x, h
  | .bool .., x, h | .list .., x, h | .null .., x, h => by
    simp [evalNumber?] at h

theorem evalNumber?_congr (hnumbers : c.numbers = c'.numbers) (henums : c.enums = c'.enums)
    (e : Expr) : c.evalNumber? e = c'.evalNumber? e := by
  have hnumber : c.number? = c'.number? := by
    funext path
    rw [number?, hnumbers]
    rfl
  have henum : c.enumValue? = c'.enumValue? := enumValue?_congr fun key => by rw [henums]
  refine Option.ext fun x => ⟨evalNumber?_mono (fun path x h => ?_) e x,
    evalNumber?_mono (fun path x h => ?_) e x⟩
  · rwa [hnumber, henum] at h
  · rwa [hnumber, henum]

theorem within_of_le (hc : c.strings.Short) (hc' : c'.strings.Short)
    (hstrings : ∀ key s, c.strings.get? key = some s → c'.strings.get? key = some s)
    (hnumbers : ∀ e x, c.evalNumber? e = some x → c'.evalNumber? e = some x) : Within c c' where
  texts e := by
    have hpath : ∀ path, c.string? path = c'.string? path ∨
        c.string? path = ({} : Catalog).string? path := by
      intro path
      have hempty : ({} : Catalog).string? path = none := find?_empty path
      rw [hempty, string?, string?, find?_eq_get? hc, find?_eq_get? hc']
      cases hget : c.strings.get? (keyOf path) with
      | none => exact .inr rfl
      | some s => exact .inl (hstrings _ s hget).symm
    cases e with
    | name m name => exact hpath name
    | member m object name =>
      simp only [evalString?]
      cases (Expr.member m object name).dotted? with
      | none => exact .inl rfl
      | some path => exact hpath path
    | _ => exact .inr rfl
  numbers e := by
    have hempty : ∀ x, ({} : Catalog).evalNumber? e = some x → c.evalNumber? e = some x := by
      refine evalNumber?_mono (fun path x h => ?_) e
      rw [number?, find?_empty, enumValue?_of_empty rfl] at h
      cases h
    cases hvalue : c.evalNumber? e with
    | none =>
      cases hnone : ({} : Catalog).evalNumber? e with
      | none => exact .inr rfl
      | some x =>
        rw [hempty x hnone] at hvalue
        cases hvalue
    | some x => exact .inl (hnumbers e x hvalue).symm

end

/-! ### What members tell -/

/-- What the members enter in a table, each on its own. -/
def entries {α : Type} (owner : String) (entry : Decl → Option α) (ms : List Decl) : Dict α :=
  ms.foldl (fun t d => t.enter (keysFor (memberName d) (some owner)) (entry d)) {}

/-- What the members of a class tell others: their texts, their enums as each is read on its own,
and the numbers that follow from these. -/
def told (owner : String) (ms : List Decl) : Catalog :=
  resolve (fieldsOf owner ms).length
    { strings := entries owner (fun d => (valueOf? d).bind literalText?) ms
      enums := entries owner ({} : Catalog).enumOf? ms }
    (fieldsOf owner ms)

theorem settles_told (owner : String) (ms : List Decl) :
    Settles
      { strings := entries owner (fun d => (valueOf? d).bind literalText?) ms
        enums := entries owner ({} : Catalog).enumOf? ms }
      (fieldsOf owner ms) (told owner ms) :=
  settles_resolve (Nat.le_refl _)

theorem strings_told (owner : String) (ms : List Decl) :
    (told owner ms).strings = entries owner (fun d => (valueOf? d).bind literalText?) ms := by
  rw [(settles_told owner ms).frame]

theorem enums_told (owner : String) (ms : List Decl) :
    (told owner ms).enums = entries owner ({} : Catalog).enumOf? ms := by
  rw [(settles_told owner ms).frame]

section

variable {owner : String} {ms : List Decl} (hms : Members owner ms)
  (hnodup : (ms.map memberName).Nodup)

include hms hnodup

theorem get?_entries_iff {α : Type} {entry : Decl → Option α} {key : String} {value : α} :
    (entries owner entry ms).get? key = some value ↔
      ∃ d ∈ ms, key ∈ keysFor (memberName d) (some owner) ∧ entry d = some value := by
  induction ms using List.reverseRecOn generalizing value with
  | nil => exact ⟨nofun, by simp⟩
  | append_singleton ms d ih =>
    have hconcat : entries owner entry (ms ++ [d]) = (entries owner entry ms).enter
        (keysFor (memberName d) (some owner)) (entry d) := by
      simp [entries]
    rw [List.map_append, List.map_singleton, List.nodup_append] at hnodup
    have hrest := @ih (hms.of_subset (by simp +contextual)) hnodup.1
    simp only [List.mem_append, List.mem_singleton, or_and_right, exists_or, exists_eq_left]
    rw [hconcat, Dict.get?_enter]
    split
    · rename_i hkey
      have hother : ∀ e ∈ ms, key ∉ keysFor (memberName e) (some owner) := by
        intro e he hkey'
        have hname := eq_of_mem_keysFor (hms.plain e (by simp [he])) (hms.plain d (by simp))
          hms.owner_plain hkey' hkey
        exact hnodup.2.2 _ (List.mem_map_of_mem he) _ (List.mem_singleton_self _) hname
      have hnone : (entries owner entry ms).get? key = none := by
        refine Option.eq_none_iff_forall_ne_some.2 fun value h => ?_
        obtain ⟨e, he, hkey', -⟩ := hrest.1 h
        exact hother e he hkey'
      rw [hnone, Option.or_none]
      refine ⟨fun h => .inr ⟨hkey, h⟩, ?_⟩
      rintro (⟨e, he, hkey', -⟩ | ⟨-, h⟩)
      · exact absurd hkey' (hother e he)
      · exact h
    · rename_i hkey
      rw [hrest]
      exact ⟨.inl, fun h => h.resolve_right fun h => hkey h.1⟩

theorem strings_told_iff {key s : String} :
    (told owner ms).strings.get? key = some s ↔
      ∃ d ∈ ms, key ∈ keysFor (memberName d) (some owner) ∧
        (valueOf? d).bind literalText? = some s := by
  rw [strings_told, get?_entries_iff hms hnodup]

theorem enums_told_iff {key : String} {e : EnumDef} :
    (told owner ms).enums.get? key = some e ↔
      ∃ d ∈ ms, key ∈ keysFor (memberName d) (some owner) ∧
        ({} : Catalog).enumOf? d = some e := by
  rw [enums_told, get?_entries_iff hms hnodup]

theorem short_strings_told : (told owner ms).strings.Short := by
  intro key s h
  obtain ⟨d, hd, hkey, -⟩ := (strings_told_iff hms hnodup).1 h
  exact length_dottedParts_le (hms.plain d hd) hms.owner_plain hkey

theorem enumsFrom_told : EnumsFrom owner ms (told owner ms) := by
  intro key e he
  obtain ⟨d, hd, hkey, hdef⟩ := (enums_told_iff hms hnodup).1 he
  refine ⟨d, hd, ?_, hkey⟩
  cases d with
  | enumDecl => rfl
  | _ => cases hdef

variable (howner : ∀ d ∈ ms, isEnum d = true → memberName d ≠ owner)

include howner

theorem settled_told :
    Sound (fieldsOf owner ms) (told owner ms).enumValue? (told owner ms) ∧
      ∀ p ∈ fieldsOf owner ms, Known (told owner ms) p ∨
        (told owner ms).evalNumber? p.value = none := by
  refine (settles_told owner ms).settled
    ((enumsFrom_told hms hnodup).unambiguous hms hnodup howner) ⟨nofun, ?_⟩
    (fun p hp => hp) fun p hp => .inr (.inl hp)
  intro path n h
  exact (congrFun (enumValue?_congr fun key => by rw [enums_told]) path).trans h

/-- Members that come in any order and whose enums are read alone know no more than all of them
tell. -/
theorem within_told {before : List Decl} (hnodup' : (before.map memberName).Nodup)
    (hsub : ∀ d ∈ before, d ∈ ms)
    (halone : ∀ first d last, before = first ++ d :: last →
      (collected owner first).1.enumOf? d = ({} : Catalog).enumOf? d) :
    Within (collected owner before).1 (told owner ms) := by
  have hbefore : Members owner before := hms.of_subset hsub
  have hfields := (enumsFrom_told hms hnodup).unambiguous hms hnodup howner
  obtain ⟨hsound, hknown⟩ := settled_told hms hnodup howner
  have henums : ∀ first last, before = first ++ last → ∀ path n,
      (collected owner first).1.enumValue? path = some n →
        (told owner ms).enumValue? path = some n := by
    rintro first last rfl path n
    have hfirst : Members owner first := hbefore.of_subset (by simp +contextual)
    rw [List.map_append] at hnodup'
    refine enumValue?_mono (isTable_enums.short hfirst)
      ((enumsFrom_told hms hnodup).short hms) fun key e he => ?_
    rw [isTable_enums.get?_collected_iff hfirst hnodup'.of_append_left fun first' d last' h =>
      halone first' d (last' ++ last) (by rw [h]; simp)] at he
    obtain ⟨d, hd, hkey, hdef⟩ := he
    exact (enums_told_iff hms hnodup).2 ⟨d, hsub d (by simp [hd]), hkey, hdef⟩
  have hcollects := collects_collected hfields hbefore (List.filterMap_subset _ hsub) henums
  refine within_of_le (isTable_strings.short hbefore) (short_strings_told hms hnodup) ?_ ?_
  · intro key s h
    rw [isTable_strings.get?_collected_iff hbefore hnodup' fun _ _ _ _ => rfl] at h
    obtain ⟨d, hd, hkey, htext⟩ := h
    exact (strings_told_iff hms hnodup).2 ⟨d, hsub d hd, hkey, htext⟩
  · intro e x h
    exact evalNumber?_of_derives hfields hsound hknown (fun _ _ hn => hn)
      (derives_of_evalNumber? hfields hcollects.sound e x h)

theorem told_within {before : List Decl} (hperm : before.Perm ms)
    (halone : ∀ first d last, before = first ++ d :: last →
      (collected owner first).1.enumOf? d = ({} : Catalog).enumOf? d)
    (hknown : ∀ p ∈ fieldsOf owner ms, Known (collected owner before).1 p ∨
      (collected owner before).1.evalNumber? p.value = none) :
    Within (told owner ms) (collected owner before).1 := by
  have hbefore : Members owner before := hms.of_subset fun d hd => hperm.mem_iff.1 hd
  have hnodup' : (before.map memberName).Nodup := (hperm.map _).nodup_iff.2 hnodup
  have henums : (told owner ms).enumValue? = (collected owner before).1.enumValue? := by
    refine enumValue?_congr fun key => Option.ext fun e => ?_
    rw [enums_told_iff hms hnodup, isTable_enums.get?_collected_iff hbefore hnodup' halone]
    simp only [hperm.mem_iff]
  have hfields := (enumsFrom_told hms hnodup).unambiguous hms hnodup howner
  obtain ⟨hsound, -⟩ := settled_told hms hnodup howner
  rw [henums] at hfields hsound
  have hcollects := collects_collected hfields hbefore (List.filterMap_subset _ hperm.subset)
    fun _ _ hsplit _ _ h => enumValue?_append hbefore hnodup' hsplit h
  refine within_of_le (short_strings_told hms hnodup) (isTable_strings.short hbefore) ?_ ?_
  · intro key s h
    rw [isTable_strings.get?_collected_iff hbefore hnodup' fun _ _ _ _ => rfl]
    simpa only [hperm.mem_iff] using (strings_told_iff hms hnodup).1 h
  · intro e x h
    exact evalNumber?_of_derives hfields hcollects.sound hknown (fun _ _ hn => hn)
      (derives_of_evalNumber? hfields hsound e x h)

end

/-! ### An order in which no field waits -/

section

variable {owner : String}

theorem Known.addDecl {c : Catalog} {p : Pending} (h : Known c p) {d : Decl}
    (hd : isNested d = false) (pending : List Pending) :
    Known (addDecl (some owner) d (c, pending)).1 p := by
  intro key hkey
  rw [addDecl_eq owner hd, Dict.get?_enter]
  split
  · rw [Option.isSome_or, h key hkey, Bool.or_true]
  · exact h key hkey

theorem Known.append {done rest : List Decl} (hms : Members owner (done ++ rest)) {p : Pending}
    (h : Known (collected owner done).1 p) : Known (collected owner (done ++ rest)).1 p := by
  induction rest using List.reverseRecOn with
  | nil => rwa [List.append_nil]
  | append_singleton rest d ih =>
    rw [← List.append_assoc, collected_concat]
    exact (ih (hms.of_subset (by simp +contextual [or_imp]))).addDecl
      (hms.not_nested d (by simp)) _

theorem evalNumber?_append {done rest : List Decl} (hms : Members owner (done ++ rest))
    (hfield : ∀ d ∈ rest, isField d = true)
    (hnone : ∀ d ∈ rest, (valueOf? d).bind (collected owner done).1.evalNumber? = none) :
    (collected owner (done ++ rest)).1.evalNumber? = (collected owner done).1.evalNumber? := by
  induction rest using List.reverseRecOn with
  | nil => rw [List.append_nil]
  | append_singleton rest d ih =>
    rw [List.forall_mem_append, List.forall_mem_singleton] at hfield hnone
    specialize ih (hms.of_subset (by simp +contextual [or_imp])) hfield.1 hnone.1
    have henum : (collected owner (done ++ rest)).1.enumOf? d = none := by
      cases d <;> simp_all [isField, enumOf?]
    rw [← List.append_assoc, collected_concat, addDecl_eq owner (hms.not_nested d (by simp)), ih,
      hnone.2, henum, ← ih]
    funext e
    refine evalNumber?_congr ?_ ?_ e <;> rfl

theorem exists_ordered_fields (done rest : List Decl) (hms : Members owner (done ++ rest))
    (hfield : ∀ d ∈ rest, isField d = true) :
    ∃ rest', rest'.Perm rest ∧ ∀ p ∈ fieldsOf owner rest,
      Known (collected owner (done ++ rest')).1 p ∨
        (collected owner (done ++ rest')).1.evalNumber? p.value = none := by
  -- A field that has its number now comes next. If there is none, the rest stays without.
  induction hlength : rest.length using Nat.strong_induction_on generalizing done rest with
  | h n ih =>
    by_cases hready : ∃ d ∈ rest,
        ((valueOf? d).bind (collected owner done).1.evalNumber?).isSome = true
    · obtain ⟨d, hd, hready⟩ := hready
      obtain ⟨first, last, rfl⟩ := List.append_of_mem hd
      have hmem : ∀ e, e ∈ first ++ d :: last ↔ e = d ∨ e ∈ first ++ last :=
        fun e => List.perm_middle.mem_iff.trans List.mem_cons
      have hsub : ∀ rest' : List Decl, rest'.Perm (first ++ last) →
          Members owner (done ++ [d] ++ rest') := by
        intro rest' hperm
        refine hms.of_subset fun e he => ?_
        rw [List.append_assoc, List.mem_append, List.singleton_append, List.mem_cons,
          hperm.mem_iff] at he
        rw [List.mem_append, hmem]
        exact he
      obtain ⟨rest', hperm, hsettled⟩ := ih (first ++ last).length (by simp [← hlength])
        (done ++ [d]) (first ++ last) (hsub _ (.refl _))
        (fun e he => hfield e ((hmem e).2 (.inr he))) rfl
      refine ⟨d :: rest', (hperm.cons d).trans List.perm_middle.symm, fun p hp => ?_⟩
      rw [List.append_cons]
      obtain ⟨e, he, hvalue, hkeys⟩ := mem_fieldsOf.1 hp
      rcases (hmem e).1 he with rfl | he
      · refine .inl (Known.append (hsub rest' hperm) fun key hkey => ?_)
        rw [collected_concat, addDecl_eq owner (hms.not_nested e (by simp)), Dict.get?_enter,
          if_pos (hkeys ▸ hkey), Option.isSome_or, hready, Bool.true_or]
      · exact hsettled p (mem_fieldsOf.2 ⟨e, he, hvalue, hkeys⟩)
    · refine ⟨rest, .refl _, fun p hp => .inr ?_⟩
      have hnone : ∀ d ∈ rest, (valueOf? d).bind (collected owner done).1.evalNumber? = none := by
        intro d hd
        simpa using fun h => hready ⟨d, hd, h⟩
      obtain ⟨d, hd, hvalue, -⟩ := mem_fieldsOf.1 hp
      rw [evalNumber?_append hms hfield hnone]
      simpa [hvalue] using hnone d hd

theorem exists_ordered {ms : List Decl} (hms : Members owner ms) :
    ∃ before, before.Perm ms ∧ ∀ p ∈ fieldsOf owner ms, Known (collected owner before).1 p ∨
      (collected owner before).1.evalNumber? p.value = none := by
  have hsplit : (ms.filter (!isField ·) ++ ms.filter isField).Perm ms :=
    List.perm_append_comm.trans (List.filter_append_perm isField ms)
  obtain ⟨rest', hperm, hsettled⟩ := exists_ordered_fields (ms.filter (!isField ·))
    (ms.filter isField) (hms.of_subset hsplit.subset) fun d hd => (List.mem_filter.1 hd).2
  refine ⟨_, (hperm.append_left _).trans hsplit, fun p hp => hsettled p ?_⟩
  obtain ⟨d, hd, hvalue, hkeys⟩ := mem_fieldsOf.1 hp
  exact mem_fieldsOf.2 ⟨d, List.mem_filter.2 ⟨hd, isField_of_valueOf? hvalue⟩, hvalue, hkeys⟩

end

/-! ### Each member with the others -/

/-- The members with other names. -/
def others (ms : List Decl) (d : Decl) : List Decl :=
  ms.filter fun e => memberName e ≠ memberName d

section

variable {owner : String} {ms : List Decl} (hms : Members owner ms)
  (hnodup : (ms.map memberName).Nodup)
  (howner : ∀ d ∈ ms, isEnum d = true → memberName d ≠ owner)

include hnodup

theorem mem_others {before after : List Decl} {d e : Decl} (hperm : (before ++ d :: after).Perm ms)
    (he : e ∈ before) : e ∈ others ms d := by
  have hdistinct := (hperm.map memberName).nodup_iff.2 hnodup
  rw [List.map_append, List.map_cons, List.nodup_append] at hdistinct
  have hne := hdistinct.2.2 _ (List.mem_map_of_mem he) _ List.mem_cons_self
  exact List.mem_filter.2 ⟨hperm.subset (by simp [he]), by simpa using hne⟩

theorem perm_others {d : Decl} (hd : d ∈ ms) : (others ms d ++ [d]).Perm ms := by
  obtain ⟨before, after, rfl⟩ := List.append_of_mem hd
  have hdistinct := (List.perm_middle.map memberName).nodup_iff.1 hnodup
  rw [List.map_cons, List.nodup_cons] at hdistinct
  have hothers : others (before ++ d :: after) d = before ++ after := by
    unfold others
    rw [List.filter_append, List.filter_cons_of_neg (by simp), ← List.filter_append,
      List.filter_eq_self]
    intro e he
    have hne : memberName e ≠ memberName d := fun heq =>
      hdistinct.1 (heq ▸ List.mem_map_of_mem he)
    simpa using hne
  rw [hothers]
  exact (List.perm_append_singleton d _).trans List.perm_middle.symm

include hms howner

theorem readsAlone_collected (h : ∀ d ∈ ms, ReadsAlone (told owner (others ms d)) d)
    (before : List Decl) (d : Decl) (after : List Decl) (hperm : (before ++ d :: after).Perm ms) :
    ReadsAlone (collected owner before).1 d := by
  -- Those that came earlier came after fewer, so they were read alone.
  induction hlength : before.length using Nat.strong_induction_on generalizing before d after with
  | h n ih =>
    have hsub : ∀ e ∈ others ms d, e ∈ ms := fun e he => List.mem_of_mem_filter he
    have hdistinct := (hperm.map memberName).nodup_iff.2 hnodup
    rw [List.map_append] at hdistinct
    refine Within.readsAlone ?_ (h d (hperm.subset (by simp)))
    refine within_told (hms.of_subset hsub) (hnodup.sublist (List.filter_sublist.map _))
      (fun e he => howner e (hsub e he)) hdistinct.of_append_left
      (fun e he => mem_others hnodup hperm he) ?_
    rintro first e last rfl
    have hearlier : (first ++ e :: (last ++ d :: after)).Perm ms := by simpa using hperm
    exact (ih first.length (by simp [← hlength]) first e _ hearlier rfl).enumDef

theorem readsAlone_told
    (h : ∀ before d after, (before ++ d :: after).Perm ms → ReadsAlone (collected owner before).1 d)
    {d : Decl} (hd : d ∈ ms) : ReadsAlone (told owner (others ms d)) d := by
  have hsub : ∀ e ∈ others ms d, e ∈ ms := fun e he => List.mem_of_mem_filter he
  have hothers : Members owner (others ms d) := hms.of_subset hsub
  obtain ⟨before, hperm, hknown⟩ := exists_ordered hothers
  have hlast : (before ++ [d]).Perm ms := (hperm.append_right _).trans (perm_others hnodup hd)
  refine Within.readsAlone ?_ (h before d [] hlast)
  refine told_within hothers (hnodup.sublist (List.filter_sublist.map _))
    (fun e he => howner e (hsub e he)) hperm ?_ hknown
  rintro first e last rfl
  have hearlier : (first ++ e :: (last ++ [d])).Perm ms := by simpa using hlast
  exact (h first e _ hearlier).enumDef

end

/-- The tables of a class whose members have different names, none of them an enum with the name
of the class, are the same for every order of the members if and only if each caption and each
enum, read with what the others tell, is what it is on its own. -/
theorem ofTree_perm_iff (m m' : Syntax.Mark) (attributes : List Syntax.Attribute)
    {owner : String} {ms : List Decl} (hms : Members owner ms)
    (hnodup : (ms.map memberName).Nodup)
    (howner : ∀ d ∈ ms, isEnum d = true → memberName d ≠ owner) :
    (∀ ms', ms'.Perm ms → Agrees (ofTree (classTree m m' attributes owner ms'))
        (ofTree (classTree m m' attributes owner ms))) ↔
      ∀ d ∈ ms, ReadsAlone (told owner (others ms d)) d := by
  constructor
  · intro h d hd
    exact readsAlone_told hms hnodup howner
      (fun _ _ _ hperm => readsAlone_of_agrees hms hnodup m m' attributes h hperm) hd
  · intro h ms' hperm
    exact agrees_of_readsAlone hms hnodup howner m m' attributes
      (readsAlone_collected hms hnodup howner h) hperm

/-- An enum with one member of that value. -/
def enumNamed (name member : String) (value : Expr) : Decl :=
  .enumDecl default [] name [{ mark := default, attributes := [], name := member, value }]

/-- A caption of literals, a number by a later one, an enum with a member that names the number it
has anyway, and a list of texts. -/
def settledMembers : List Decl :=
  [fieldNamed "c"
      (.new default (some "GUIContent") [.string default "x", .string default "y"] none),
    fieldNamed "A" (.unary default .minus (.member default (.name default "P") "B")),
    enumNamed "E" "X" (.name default "K"),
    fieldNamed "B" (.member default (.name default "E") "X"),
    fieldNamed "K" (.integer default 0),
    fieldNamed "names" (.list default [.string default "x"])]

theorem ofTree_perm_iff_reversed :
    settledMembers.reverse.Perm settledMembers ∧
      Agrees (ofTree (classTree default default [] "P" settledMembers.reverse))
        (ofTree (classTree default default [] "P" settledMembers)) := by
  have hms : Members "P" settledMembers := ⟨by decide, by decide, by decide⟩
  have hreverse := List.reverse_perm settledMembers
  exact ⟨hreverse, (ofTree_perm_iff default default [] hms (by decide) (by decide)).2
    (by decide +kernel) _ hreverse⟩

/-- A caption before the text that it is made of, an enum before the number of its member, and an
enum with the name of the class before a number of the same path as its member. -/
theorem ofTree_perm_differs :
    ¬Agrees
        (ofTree (classTree default default [] "P"
          [fieldNamed "c" (.new default (some "GUIContent") [.name default "L"] none),
            fieldNamed "L" (.string default "x")]))
        (ofTree (classTree default default [] "P"
          [fieldNamed "L" (.string default "x"),
            fieldNamed "c" (.new default (some "GUIContent") [.name default "L"] none)])) ∧
      ¬Agrees
        (ofTree (classTree default default [] "P"
          [enumNamed "E" "A" (.name default "K"), fieldNamed "K" (.integer default 5)]))
        (ofTree (classTree default default [] "P"
          [fieldNamed "K" (.integer default 5), enumNamed "E" "A" (.name default "K")])) ∧
      ¬Agrees
        (ofTree (classTree default default [] "P"
          [enumNamed "P" "X" (.integer default 1),
            fieldNamed "A" (.member default (.name default "P") "X"),
            fieldNamed "X" (.integer default 2)]))
        (ofTree (classTree default default [] "P"
          [fieldNamed "X" (.integer default 2), enumNamed "P" "X" (.integer default 1),
            fieldNamed "A" (.member default (.name default "P") "X")])) := by
  refine ⟨fun h => ?_, fun h => ?_, fun h => ?_⟩
  · exact absurd (h.captions "c") (by decide +kernel)
  · exact absurd (h.enums "E") (by decide +kernel)
  · have hbits := congrArg (Option.map Float.toBits) (h.numbers "A")
    exact absurd hbits (by decide +kernel)

end PanelSchema.Catalog
