import PanelSchema.Call
import PanelSchema.Proofs.Catalog
import PanelSchema.Proofs.Catalog.Lookup
import PanelSchema.Proofs.Renaming.Tree

/-!
What a source declares, under other names for its locals. The tables are looked up by paths,
and a path that starts with a local is found by its last two parts or not at all; so the
tables of the renamed source are the same, but for the names inside the routines.
-/

namespace PanelSchema

open Syntax (Expr Stmt Decl Attribute EnumMember Parameter SourceTree)

/-! ### Names that may be replaced -/

/-- A name that means nothing by itself. -/
structure Ordinary (z : String) : Prop where
  plain : '.' ∉ z.toList
  unrecognized : CallShape.ofMethod z = .unrecognized
  unreserved : z ∉ ["TrTextContent", "TrTempContent", "TempContent", "this", "indentLevel"]

/-- Different names stay different, and only ordinary ones change. -/
structure Renaming (f : String → String) : Prop where
  injective : Function.Injective f
  ordinary : ∀ z, f z ≠ z → Ordinary z

theorem Renaming.unmoved : Renaming id where
  injective := Function.injective_id
  ordinary _ h := absurd rfl h

def Fixes (f : String → String) (path : String) : Prop :=
  ∀ z ∈ dottedParts path, f z = z

/-- A path as it is written before a renaming and after it. -/
inductive PathRenamed (f : String → String) : String → String → Prop where
  | same (path : String) : PathRenamed f path path
  | part {path path' z : String} {before after : List String} (hz : f z ≠ z)
      (hbefore : before = [] ∨ before = ["this"])
      (hparts : dottedParts path = before ++ z :: after)
      (hparts' : dottedParts path' = before ++ f z :: after) : PathRenamed f path path'

namespace PathRenamed

variable {f : String → String} {path path' : String}

theorem member (h : PathRenamed f path path') (n : String) :
    PathRenamed f (path ++ "." ++ n) (path' ++ "." ++ n) := by
  cases h with
  | same => exact .same _
  | @part _ z before after hz hbefore hparts hparts' =>
    have hpath : dottedParts (path ++ "." ++ n) = before ++ z :: (after ++ dottedParts n) := by
      rw [dottedParts_join, hparts, List.append_assoc, List.cons_append]
    have hpath' : dottedParts (path' ++ "." ++ n) =
        before ++ f z :: (after ++ dottedParts n) := by
      rw [dottedParts_join, hparts', List.append_assoc, List.cons_append]
    exact .part hz hbefore hpath hpath'

end PathRenamed

namespace Renaming

variable {f : String → String} (hf : Renaming f)
include hf

theorem moved {z : String} (h : f z ≠ z) : f (f z) ≠ f z :=
  fun heq => h (hf.injective heq)

theorem eq_of_reserved {z : String}
    (h : z ∈ ["TrTextContent", "TrTempContent", "TempContent", "this", "indentLevel"]) :
    f z = z := by
  by_contra hz
  exact (hf.ordinary z hz).unreserved h

theorem this : f "this" = "this" :=
  hf.eq_of_reserved (by simp)

theorem apply_eq_iff {n k : String} (hk : f k = k) : f n = k ↔ n = k := by
  constructor
  · intro h
    exact hf.injective (h.trans hk.symm)
  · rintro rfl
    exact hk

theorem ofMethod (n : String) : CallShape.ofMethod (f n) = CallShape.ofMethod n := by
  by_cases hn : f n = n
  · rw [hn]
  · rw [(hf.ordinary n hn).unrecognized, (hf.ordinary (f n) (hf.moved hn)).unrecognized]

theorem isThis (e : Expr) : (e.mapNames f).isThis = e.isThis := by
  cases e with
  | name m n => simp [Expr.mapNames, Expr.isThis, Expr.asName?, hf.apply_eq_iff hf.this]
  | new m type args init => cases init <;> rfl
  | _ => rfl

theorem pathRenamed (n : String) :
    PathRenamed f n (f n) ∧ PathRenamed f ("this" ++ "." ++ n) ("this" ++ "." ++ f n) := by
  by_cases hn : f n = n
  · rw [hn]
    exact ⟨.same n, .same _⟩
  · have hparts : dottedParts n = [n] := dottedParts_of_plain (hf.ordinary n hn).plain
    have hparts' : dottedParts (f n) = [f n] :=
      dottedParts_of_plain (hf.ordinary (f n) (hf.moved hn)).plain
    have hthis : dottedParts "this" = ["this"] := dottedParts_of_plain (by decide)
    have hunder : ∀ z, dottedParts z = [z] → dottedParts ("this" ++ "." ++ z) = ["this", z] := by
      intro z hz
      rw [dottedParts_join, hthis, hz, List.singleton_append]
    exact ⟨.part hn (.inl rfl) hparts hparts',
      .part hn (.inr rfl) (hunder n hparts) (hunder (f n) hparts')⟩

/-- A path changes in its first part, or in the second where the first is `this`. -/
theorem dotted? (e : Expr) : Option.Rel (PathRenamed f) e.dotted? (e.mapNames f).dotted? := by
  fun_induction Expr.dotted? e with
  | case1 m n => exact .some (hf.pathRenamed n).1
  | case2 m object n ih =>
    rw [Expr.mapNames, Expr.dotted?]
    cases hthis : object.isThis with
    | true =>
      obtain ⟨m', rfl⟩ := Expr.isThis_iff.1 hthis
      rw [Expr.mapNames, hf.this]
      exact .some (hf.pathRenamed n).2
    | false =>
      revert ih
      generalize object.dotted? = path
      generalize (object.mapNames f).dotted? = path'
      intro ih
      cases ih with
      | none => exact .none
      | some h => exact .some (h.member n)
  | case3 e hname hmember =>
    cases e with
    | name m n => exact absurd rfl (hname m n)
    | member m object n => exact absurd rfl (hmember m object n)
    | new m type args init => cases init <;> exact .none
    | _ => exact .none

theorem bind_dotted? {α : Type} {look look' : String → Option α}
    (h : ∀ path path', PathRenamed f path path' → look' path' = look path) (e : Expr) :
    (e.mapNames f).dotted?.bind look' = e.dotted?.bind look := by
  have hpath := hf.dotted? e
  revert hpath
  generalize e.dotted? = path
  generalize (e.mapNames f).dotted? = path'
  intro hpath
  cases hpath with
  | none => rfl
  | some hpath => exact h _ _ hpath

end Renaming

/-! ### Lookups -/

def Dict.FixedBy {α : Type} (f : String → String) (d : Dict α) : Prop :=
  ∀ key value, d.get? key = some value → Fixes f key

section

variable {α : Type} {f : String → String} {d : Dict α}

theorem Dict.FixedBy.get?_eq_none (hd : d.FixedBy f) {key z : String} (hz : f z ≠ z)
    (hmem : z ∈ dottedParts key) : d.get? key = none := by
  cases hget : d.get? key with
  | none => rfl
  | some value => exact absurd (hd key value hget z hmem) hz

theorem Dict.get?_of_insert {key k : String} {value : α}
    (h : (d.insert key value).get? k = none) : d.get? k = none := by
  rw [Dict.get?_insert] at h
  split at h
  · cases h
  · exact h

theorem Dict.get?_of_insertAll {keys : List String} {k : String} {value : α}
    (h : (d.insertAll keys value).get? k = none) : d.get? k = none := by
  unfold Dict.insertAll at h
  induction keys generalizing d with
  | nil => exact h
  | cons key keys ih => exact Dict.get?_of_insert (ih h)

theorem Dict.get?_of_foldl_insertNew {keys : List String} {k : String} {value : α}
    (h : (keys.foldl (fun d key => d.insertNew key value) d).get? k = none) :
    d.get? k = none := by
  induction keys generalizing d with
  | nil => exact h
  | cons key keys ih =>
    have hnew : (d.insertNew key value).get? k = none := ih h
    unfold Dict.insertNew at hnew
    split at hnew
    · exact hnew
    · exact Dict.get?_of_insert hnew

theorem Dict.FixedBy.of_keys {d' : Dict α} (hd : d'.FixedBy f)
    (h : ∀ {key : String}, d'.get? key = none → d.get? key = none) : d.FixedBy f := by
  intro key value hget
  cases hget' : d'.get? key with
  | none => rw [h hget'] at hget; cases hget
  | some value' => exact hd key value' hget'

theorem Catalog.find?_renamed (hf : Renaming f) (hd : d.FixedBy f) {path path' : String}
    (h : PathRenamed f path path') : Catalog.find? d path' = Catalog.find? d path := by
  cases h with
  | same => rfl
  | @part _ z before after hz _ hparts hparts' =>
    have hz' := hf.moved hz
    have hget : d.get? path = none := hd.get?_eq_none hz (by simp [hparts])
    have hget' : d.get? path' = none := hd.get?_eq_none hz' (by simp [hparts'])
    have hown := dottedParts_of_plain (hf.ordinary z hz).plain
    have hown' := dottedParts_of_plain (hf.ordinary (f z) hz').plain
    have hlast : ∀ owner, d.get? (owner ++ "." ++ f z) = d.get? (owner ++ "." ++ z) := by
      intro owner
      rw [hd.get?_eq_none hz' (by simp [dottedParts_join, hown']),
        hd.get?_eq_none hz (by simp [dottedParts_join, hown])]
    have hfirst : ∀ member, d.get? (f z ++ "." ++ member) = d.get? (z ++ "." ++ member) := by
      intro member
      rw [hd.get?_eq_none hz' (by simp [dottedParts_join, hown']),
        hd.get?_eq_none hz (by simp [dottedParts_join, hown])]
    unfold Catalog.find?
    rw [hget, hget', hparts, hparts']
    simp only [List.reverse_append, List.reverse_cons, List.append_assoc, List.singleton_append]
    rcases after.reverse with _ | ⟨last, _ | ⟨previous, _ | ⟨third, more⟩⟩⟩
    · rcases before.reverse with _ | ⟨owner, _ | ⟨third, more⟩⟩
      · rfl
      · rfl
      · exact hlast owner
    · rcases before.reverse with _ | ⟨third, more⟩
      · rfl
      · exact hfirst last
    · rfl
    · rfl

end

/-! ### Values -/

/-- The dictionary with other values. -/
def Dict.map {α β : Type} (g : α → β) (d : Dict α) : Dict β :=
  { entries := d.entries.map fun e => (e.1, g e.2) }

section

variable {α β : Type} (g : α → β) (d : Dict α)

theorem Dict.get?_map (key : String) : (d.map g).get? key = (d.get? key).map g := by
  unfold Dict.map Dict.get?
  induction d.entries with
  | nil => rfl
  | cons e es ih =>
    rw [List.map_cons, List.lookup_cons, List.lookup_cons, ih]
    split <;> rfl

theorem Dict.size_map : (d.map g).size = d.size :=
  List.length_map _

theorem Dict.map_insert (key : String) (value : α) :
    (d.insert key value).map g = (d.map g).insert key (g value) := by
  unfold Dict.map Dict.insert
  congr 1
  induction d.entries with
  | nil => rfl
  | cons e es ih =>
    rw [List.map_cons, Dict.putEntry, Dict.putEntry]
    split
    · rfl
    · rw [List.map_cons, ih]

theorem Dict.map_insertNew (key : String) (value : α) :
    (d.insertNew key value).map g = (d.map g).insertNew key (g value) := by
  unfold Dict.insertNew Dict.contains
  rw [Dict.get?_map, Option.isSome_map]
  split
  · rfl
  · exact Dict.map_insert g d key value

theorem Catalog.find?_map (name : String) : find? (d.map g) name = (find? d name).map g := by
  unfold find?
  rw [Dict.get?_map]
  cases d.get? name with
  | some value => rfl
  | none =>
    dsimp only [Option.map_none]
    split
    · exact Dict.get?_map g d _
    · rfl

end

def Dict.keys {α : Type} (d : Dict α) : List String :=
  d.entries.map (·.1)

def Routine.mapNames (f : String → String) (r : Routine) : Routine :=
  { r with params := r.params.map (Parameter.mapNames f), body := r.body.mapNames f }

namespace Catalog

def mapNames (f : String → String) (c : Catalog) : Catalog :=
  { c with routines := c.routines.map (Routine.mapNames f) }

def keys (c : Catalog) : List String :=
  c.strings.keys ++ c.numbers.keys ++ c.captions.keys ++ c.lists.keys ++ c.enums.keys ++
    c.routines.keys

/-- A renaming keeps the names of all that is known. -/
structure FixedBy (f : String → String) (c : Catalog) : Prop where
  strings : c.strings.FixedBy f
  numbers : c.numbers.FixedBy f
  captions : c.captions.FixedBy f
  lists : c.lists.FixedBy f
  enums : c.enums.FixedBy f
  routines : c.routines.FixedBy f
  this : c.enums.get? "this" = none

variable {f : String → String} {c : Catalog}

theorem FixedBy.of_keys (h : ∀ key ∈ c.keys, Fixes f key) (this : c.enums.get? "this" = none) :
    c.FixedBy f := by
  have htable : ∀ {α : Type} (d : Dict α), d.keys ⊆ c.keys → d.FixedBy f := by
    intro α d hsub key value hget
    exact h key (hsub (List.mem_map_of_mem (Dict.mem_entries_of_get? hget)))
  constructor
  case this => exact this
  all_goals
    apply htable
    intro key hkey
    simp [keys, hkey]

@[simp] theorem literalText?_mapNames (e : Expr) :
    literalText? (e.mapNames f) = literalText? e := by
  cases e with
  | new m type args init => cases init <;> rfl
  | _ => rfl

theorem mapM_literalText?_mapNames (es : List Expr) :
    (es.map (Expr.mapNames f)).mapM literalText? = es.mapM literalText? := by
  induction es with
  | nil => rfl
  | cons e es ih => simp [ih]

theorem textList?_mapNames (e : Expr) : textList? (e.mapNames f) = textList? e := by
  cases e with
  | new m type args init =>
    cases init with
    | none => rfl
    | some es =>
      rw [Expr.mapNames, textList?, textList?, Expr.mapNamesAll_eq]
      exact mapM_literalText?_mapNames es
  | list m es =>
    rw [Expr.mapNames, textList?, textList?, Expr.mapNamesAll_eq]
    exact mapM_literalText?_mapNames es
  | _ => rfl

theorem isReference_mapNames (e : Expr) : isReference (e.mapNames f) = isReference e := by
  fun_induction isReference e with
  | case1 | case2 => rfl
  | case3 m op e ih => exact ih
  | case4 m type e ih => exact ih
  | case5 e hname hmember hunary hcast =>
    cases e with
    | name m n => exact absurd rfl (hname m n)
    | member m object n => exact absurd rfl (hmember m object n)
    | unary m op e => exact absurd rfl (hunary m op e)
    | cast m type e => exact absurd rfl (hcast m type e)
    | new m type args init => cases init <;> rfl
    | _ => rfl

section

variable (hf : Renaming f) (hc : c.FixedBy f)
include hf hc

theorem enumValue?_renamed {path path' : String} (h : PathRenamed f path path') :
    (c.mapNames f).enumValue? path' = c.enumValue? path := by
  cases h with
  | same => rfl
  | @part _ z before after hz hbefore hparts hparts' =>
    rcases List.eq_nil_or_concat after with rfl | ⟨inner, last, rfl⟩
    · rcases hbefore with rfl | rfl
      · simp [enumValue?, hparts, hparts']
      · -- The path is `this.z`, and no enum has the name `this`.
        have hthis : c.enum? (".".intercalate ["this"]) = none := by
          simp [enum?, find?, String.intercalate_singleton, hc.this,
            dottedParts_of_plain (show '.' ∉ "this".toList by decide)]
        rw [enumValue?_of_parts hparts (by simp), enumValue?_of_parts hparts' (by simp)]
        change (c.enum? _).bind _ = _
        rw [hthis]
        rfl
    · have hplain : ∀ p ∈ before ++ z :: inner, '.' ∉ p.toList := by
        intro p hp
        have hmem : p ∈ dottedParts path := by grind
        exact plain_of_mem_dottedParts hmem
      have hplain' : ∀ p ∈ before ++ f z :: inner, '.' ∉ p.toList := by
        intro p hp
        have hmem : p ∈ dottedParts path' := by grind
        exact plain_of_mem_dottedParts hmem
      rw [List.concat_eq_append, ← List.cons_append, ← List.append_assoc] at hparts hparts'
      have htype := PathRenamed.part hz hbefore (dottedParts_intercalate (by simp) hplain)
        (dottedParts_intercalate (by simp) hplain')
      rw [enumValue?_of_parts hparts (by simp), enumValue?_of_parts hparts' (by simp)]
      change (find? c.enums _).bind _ = _
      rw [find?_renamed hf hc.enums htype]
      rfl

theorem evalString?_mapNames (e : Expr) :
    (c.mapNames f).evalString? (e.mapNames f) = c.evalString? e := by
  have hlook := hf.bind_dotted? (fun _ _ h => find?_renamed hf hc.strings h) e
  cases e with
  | name m n => exact hlook
  | member m object n => exact hlook
  | new m type args init => cases init <;> rfl
  | _ => rfl

theorem evalNumber?_mapNames (e : Expr) :
    (c.mapNames f).evalNumber? (e.mapNames f) = c.evalNumber? e := by
  have hnumber : ∀ {path path' : String}, PathRenamed f path path' →
      (c.mapNames f).number? path' = c.number? path := find?_renamed hf hc.numbers
  fun_induction Catalog.evalNumber? c e with
  | case1 | case2 => rfl
  | case3 m e ih => rw [Expr.mapNames, evalNumber?, ih]
  | case4 m e ih => rw [Expr.mapNames, evalNumber?, ih]
  | case5 m type e ih => rw [Expr.mapNames, evalNumber?, ih]
  | case6 m n =>
    apply hf.bind_dotted? _ (.name m n)
    intro path path' h
    rw [hnumber h, enumValue?_renamed hf hc h]
  | case7 m object n =>
    apply hf.bind_dotted? _ (.member m object n)
    intro path path' h
    rw [hnumber h, enumValue?_renamed hf hc h]
  | case8 e hinteger hfloat hminus hplus hcast hname hmember =>
    cases e with
    | integer m n => exact absurd rfl (hinteger m n)
    | float m x => exact absurd rfl (hfloat m x)
    | unary m op e =>
      cases op with
      | minus => exact absurd rfl (hminus m e)
      | plus => exact absurd rfl (hplus m e)
      | _ => rfl
    | cast m type e => exact absurd rfl (hcast m type e)
    | name m n => exact absurd rfl (hname m n)
    | member m object n => exact absurd rfl (hmember m object n)
    | new m type args init => cases init <;> rfl
    | _ => rfl

theorem captionOf?_mapNames (e : Expr) :
    (c.mapNames f).captionOf? (e.mapNames f) = c.captionOf? e := by
  have hargs : ∀ (args : List Expr) (i : Nat),
      (args.map (Expr.mapNames f))[i]?.bind (c.mapNames f).evalString? =
        args[i]?.bind c.evalString? := by
    intro args i
    rw [List.getElem?_map]
    cases args[i]? with
    | none => rfl
    | some e => exact evalString?_mapNames hf hc e
  cases e with
  | new m type args init =>
    have hmap : ∃ init', (Expr.new m type args init).mapNames f =
        .new m type (args.map (Expr.mapNames f)) init' := by
      cases init with
      | none => exact ⟨none, by simp [Expr.mapNames]⟩
      | some es => exact ⟨some (es.map (Expr.mapNames f)), by simp [Expr.mapNames]⟩
    obtain ⟨init', hmap⟩ := hmap
    rw [hmap]
    cases type with
    | none => rfl
    | some type =>
      rw [captionOf?, captionOf?, List.head?_eq_getElem?, List.head?_eq_getElem?, hargs, hargs]
  | _ => rfl

end

/-! ### Building the tables -/

theorem find?_ident {cases : List EnumCase} {n n' : String}
    (h : ∀ k ∈ cases.map (·.ident), n' = k ↔ n = k) :
    cases.find? (·.ident == n') = cases.find? (·.ident == n) := by
  induction cases with
  | nil => rfl
  | cons m cases ih =>
    rw [List.map_cons, List.forall_mem_cons] at h
    have hsame : (m.ident == n') = (m.ident == n) := by
      rw [Bool.eq_iff_iff, beq_iff_eq, beq_iff_eq, eq_comm, h.1, eq_comm]
    rw [List.find?_cons, List.find?_cons, hsame, ih h.2]

theorem explicitValue?_mapNames (hf : Renaming f) (hc : c.FixedBy f) {earlier : List EnumCase}
    {e : Expr} (h : ∀ n ∈ e.asName?, ∀ k ∈ earlier.map (·.ident), f n = k ↔ n = k) :
    (c.mapNames f).explicitValue? earlier (e.mapNames f) = c.explicitValue? earlier e := by
  unfold explicitValue?
  rw [evalNumber?_mapNames hf hc]
  cases e with
  | name m n =>
    simp only [Expr.mapNames, Expr.asName?, Option.bind_some, find?_ident (h n rfl)]
  | new m type args init => cases init <;> rfl
  | _ => rfl

theorem caseLabel_mapNames (m : EnumMember) : caseLabel (m.mapNames f) = caseLabel m := by
  have hfound : (m.attributes.map (Attribute.mapNames f)).find? (·.isNamed "InspectorName") =
      (m.attributes.find? (·.isNamed "InspectorName")).map (Attribute.mapNames f) :=
    List.find?_map
  unfold caseLabel
  dsimp only [EnumMember.mapNames]
  rw [hfound]
  cases m.attributes.find? (·.isNamed "InspectorName") with
  | none => rfl
  | some a => cases hargs : a.args <;> simp [Attribute.mapNames, hargs]

theorem enumCases_mapNames (hf : Renaming f) (hc : c.FixedBy f) (next : Int)
    {members : List EnumMember} {earlier : List EnumCase}
    (h : ∀ p ∈ EnumMember.compared members (earlier.map (·.ident)), f p.1 = p.2 ↔ p.1 = p.2) :
    (c.mapNames f).enumCases (members.map (EnumMember.mapNames f)) earlier next =
      c.enumCases members earlier next := by
  induction members generalizing earlier next with
  | nil => rfl
  | cons member members ih =>
    rw [EnumMember.compared, List.forall_mem_append] at h
    have hvalue : (member.mapNames f).value.bind ((c.mapNames f).explicitValue? earlier) =
        member.value.bind (c.explicitValue? earlier) := by
      dsimp only [EnumMember.mapNames]
      cases he : member.value with
      | none => rfl
      | some e =>
        apply explicitValue?_mapNames hf hc
        intro n hn k hk
        apply h.1 (n, k)
        rw [he, Option.bind_some, List.mem_flatMap]
        exact ⟨n, Option.mem_toList.2 hn, List.mem_map_of_mem hk⟩
    rw [List.map_cons, enumCases, enumCases, hvalue, caseLabel_mapNames]
    apply ih
    rw [List.map_append]
    exact h.2

def Pending.mapNames (f : String → String) (p : Pending) : Pending :=
  { p with value := p.value.mapNames f }

/-- What is known so far, with other names. -/
def mapTables (f : String → String) (s : Catalog × List Pending) : Catalog × List Pending :=
  (s.1.mapNames f, s.2.map (Pending.mapNames f))

private theorem not_string {v : Expr} (h : literalText? v = none) (m : Syntax.Mark)
    (text : String) : v ≠ .string m text := by
  rintro rfl
  cases h

theorem addField_mapNames (hf : Renaming f) (hc : c.FixedBy f) (keys : List String)
    (value : Expr) (pending : List Pending) :
    addField keys (value.mapNames f) (c.mapNames f) (pending.map (Pending.mapNames f)) =
      mapTables f (addField keys value c pending) := by
  cases htext : literalText? value with
  | some text =>
    cases value with
    | string m text => rfl
    | _ => cases htext
  | none =>
    have htext' : literalText? (value.mapNames f) = none := by rw [literalText?_mapNames, htext]
    rw [addField, addField, captionOf?_mapNames hf hc, textList?_mapNames,
      evalNumber?_mapNames hf hc, isReference_mapNames]
    · cases c.captionOf? value with
      | some caption => rfl
      | none =>
        cases textList? value with
        | some items => rfl
        | none =>
          cases c.evalNumber? value with
          | some x => rfl
          | none => cases isReference value <;> simp [mapTables, Pending.mapNames]
    · exact not_string htext
    · exact not_string htext'

theorem map_foldl_insertNew (keys : List String) (r : Routine) (d : Dict Routine) :
    (keys.foldl (fun d key => d.insertNew key r) d).map (Routine.mapNames f) =
      keys.foldl (fun d key => d.insertNew key (r.mapNames f)) (d.map (Routine.mapNames f)) := by
  induction keys generalizing d with
  | nil => rfl
  | cons key keys ih => rw [List.foldl_cons, List.foldl_cons, ih, Dict.map_insertNew]

/-! A name that is known stays known, so a renaming that keeps all names in the end keeps
those that are known on the way. -/

theorem FixedBy.of_addField {keys : List String} {value : Expr} {pending : List Pending}
    (h : (addField keys value c pending).1.FixedBy f) : c.FixedBy f := by
  unfold addField at h
  split at h
  · exact { h with strings := h.strings.of_keys Dict.get?_of_insertAll }
  · split at h
    · exact { h with captions := h.captions.of_keys Dict.get?_of_insertAll }
    · split at h
      · exact { h with lists := h.lists.of_keys Dict.get?_of_insertAll }
      · split at h
        · exact { h with numbers := h.numbers.of_keys Dict.get?_of_insertAll }
        · exact h

mutual

theorem FixedBy.of_addDecl {owner : Option String} :
    ∀ (d : Decl) {s : Catalog × List Pending}, (addDecl owner d s).1.FixedBy f → s.1.FixedBy f
  | .namespaceDecl _ _ body, _, h => FixedBy.of_addDecls body (by rwa [addDecl] at h)
  | .classDecl _ _ _ body, _, h => FixedBy.of_addDecls body (by rwa [addDecl] at h)
  | .enumDecl _ _ name members, (c, pending), h => by
    rw [addDecl] at h
    exact { h with
      enums := h.enums.of_keys Dict.get?_of_insertAll
      this := Dict.get?_of_insertAll h.this }
  | .field _ _ _ _ _ (some _), (c, pending), h => by
    rw [addDecl] at h
    exact h.of_addField
  | .field _ _ _ _ _ none, s, h => by rwa [addDecl] at h
  | .method .., (c, pending), h => by
    rw [addDecl] at h
    exact { h with routines := h.routines.of_keys Dict.get?_of_foldl_insertNew }

theorem FixedBy.of_addDecls {owner : Option String} :
    ∀ (ds : List Decl) {s : Catalog × List Pending}, (addDecls owner ds s).1.FixedBy f →
      s.1.FixedBy f
  | [], _, h => h
  | d :: ds, _, h => by
    rw [addDecls] at h
    exact FixedBy.of_addDecl d (FixedBy.of_addDecls ds h)

end

theorem FixedBy.of_resolveRound {pending : List Pending} {c : Catalog}
    (h : (resolveRound pending c).1.FixedBy f) : c.FixedBy f := by
  induction pending generalizing c with
  | nil => exact h
  | cons p pending ih =>
    unfold resolveRound at h
    split at h
    · have hc := ih h
      exact { hc with numbers := hc.numbers.of_keys Dict.get?_of_insertAll }
    · exact ih h

theorem FixedBy.of_resolve {rounds : Nat} {c : Catalog} {pending : List Pending}
    (h : (resolve rounds c pending).FixedBy f) : c.FixedBy f := by
  induction rounds generalizing c pending with
  | zero => exact h
  | succ rounds ih =>
    unfold resolve at h
    dsimp only at h
    split at h
    · exact h.of_resolveRound
    · exact (ih h).of_resolveRound

mutual

theorem addDecl_mapNames (hf : Renaming f) {owner : Option String} :
    ∀ (d : Decl) {s : Catalog × List Pending}, (∀ p ∈ d.compared, f p.1 = p.2 ↔ p.1 = p.2) →
      (addDecl owner d s).1.FixedBy f →
      addDecl owner (d.mapNames f) (mapTables f s) = mapTables f (addDecl owner d s)
  | .namespaceDecl _ _ body, s, hd, hs => by
    rw [addDecl] at hs
    rw [Decl.mapNames, addDecl, addDecl]
    exact addDecls_mapNames hf body hd hs
  | .classDecl _ _ name body, s, hd, hs => by
    rw [addDecl] at hs
    rw [Decl.mapNames, addDecl, addDecl]
    exact addDecls_mapNames hf body hd hs
  | .enumDecl _ _ name members, (c, pending), hd, hs => by
    have hcases : (c.mapNames f).enumCases (members.map (EnumMember.mapNames f)) [] 0 =
        c.enumCases members [] 0 := enumCases_mapNames hf (FixedBy.of_addDecl _ hs) 0 hd
    have henum : (c.mapNames f).enumDef name (members.map (EnumMember.mapNames f)) =
        c.enumDef name members := by rw [enumDef, enumDef, hcases]
    rw [Decl.mapNames, mapTables, addDecl, addDecl, henum]
    rfl
  | .field _ _ _ _ name (some value), (c, pending), hd, hs => by
    rw [Decl.mapNames, mapTables, Option.map_some, addDecl, addDecl]
    exact addField_mapNames hf (FixedBy.of_addDecl _ hs) _ value pending
  | .field _ _ _ _ _ none, s, hd, hs => by
    rw [Decl.mapNames, Option.map_none, addDecl, addDecl]
  | .method _ _ _ name params body, (c, pending), hd, hs => by
    rw [Decl.mapNames, mapTables, addDecl, addDecl]
    unfold mapTables mapNames
    rw [map_foldl_insertNew]
    rfl

theorem addDecls_mapNames (hf : Renaming f) {owner : Option String} :
    ∀ (ds : List Decl) {s : Catalog × List Pending},
      (∀ p ∈ Decl.comparedAll ds, f p.1 = p.2 ↔ p.1 = p.2) →
      (addDecls owner ds s).1.FixedBy f →
      addDecls owner (Decl.mapNamesAll f ds) (mapTables f s) = mapTables f (addDecls owner ds s)
  | [], s, _, _ => rfl
  | d :: ds, s, hd, hs => by
    rw [Decl.comparedAll, List.forall_mem_append] at hd
    rw [addDecls] at hs
    rw [Decl.mapNamesAll, addDecls, addDecls,
      addDecl_mapNames hf d hd.1 (FixedBy.of_addDecls ds hs)]
    exact addDecls_mapNames hf ds hd.2 hs

end

theorem resolveRound_mapNames (hf : Renaming f) (pending : List Pending) {c : Catalog}
    (hs : (resolveRound pending c).1.FixedBy f) :
    resolveRound (pending.map (Pending.mapNames f)) (c.mapNames f) =
      mapTables f (resolveRound pending c) := by
  induction pending generalizing c with
  | nil => rfl
  | cons p pending ih =>
    have hnumber : (c.mapNames f).evalNumber? (p.mapNames f).value = c.evalNumber? p.value :=
      evalNumber?_mapNames hf hs.of_resolveRound p.value
    rw [List.map_cons, resolveRound, resolveRound, hnumber]
    rw [resolveRound] at hs
    cases hp : c.evalNumber? p.value with
    | some x =>
      rw [hp] at hs
      exact ih hs
    | none =>
      rw [hp] at hs
      dsimp only
      rw [ih hs]
      rfl

theorem resolve_mapNames (hf : Renaming f) (rounds : Nat) {c : Catalog} {pending : List Pending}
    (hs : (resolve rounds c pending).FixedBy f) :
    resolve rounds (c.mapNames f) (pending.map (Pending.mapNames f)) =
      (resolve rounds c pending).mapNames f := by
  induction rounds generalizing c pending with
  | zero => rfl
  | succ rounds ih =>
    rw [resolve] at hs
    dsimp only at hs
    have hfirst : (resolveRound pending c).1.FixedBy f := by
      split at hs
      · exact hs
      · exact hs.of_resolve
    rw [resolve, resolve, resolveRound_mapNames hf pending hfirst]
    dsimp only [mapTables]
    rw [List.length_map, List.length_map]
    split at hs
    · rename_i hsame
      rw [if_pos hsame, if_pos hsame]
    · rename_i hsame
      rw [if_neg hsame, if_neg hsame, ih hs]

/-- The renamed source declares the same, with other names inside its routines. -/
theorem ofTree_mapNames (hf : Renaming f) {t : SourceTree} (ht : (ofTree t).FixedBy f)
    (hmembers : ∀ p ∈ t.compared, f p.1 = p.2 ↔ p.1 = p.2) :
    ofTree (t.mapNames f) = (ofTree t).mapNames f := by
  have hs : (addDecls none t.body ({}, [])).1.FixedBy f := FixedBy.of_resolve ht
  have hdecls := addDecls_mapNames hf t.body hmembers hs
  have hempty : mapTables f (({} : Catalog), []) = ({}, []) := rfl
  rw [hempty] at hdecls
  unfold ofTree SourceTree.mapNames
  dsimp only
  rw [hdecls]
  dsimp only [mapTables]
  rw [List.length_map]
  exact resolve_mapNames hf _ ht

end Catalog

end PanelSchema
