import PanelSchema.Catalog

/-!
What a catalog holds. A lookup finds something that was put in, and the values of enums are
integers of a model however they were written.
-/

namespace PanelSchema

open Syntax (Expr Decl EnumMember SourceTree)

/-! ### Integers of a model -/

def IsInt (n : Int) : Prop :=
  leastInt ≤ n ∧ n ≤ greatestInt

instance decidableIsInt (n : Int) : Decidable (IsInt n) :=
  inferInstanceAs (Decidable (leastInt ≤ n ∧ n ≤ greatestInt))

theorem isInt_clampInt (n : Int) : IsInt (clampInt n) := by
  unfold IsInt clampInt leastInt greatestInt
  omega

theorem isInt_nextInt (n : Int) : IsInt (nextInt n) :=
  isInt_clampInt _

theorem isInt_toInt (q : Quantity) : IsInt q.toInt := by
  cases q with
  | finite m e => exact isInt_clampInt _
  | infinite negative => cases negative <;> decide
  | undefined => decide

theorem isInt_floatToInt (x : Float) : IsInt (floatToInt x) :=
  isInt_toInt _

/-! ### Lookups -/

theorem Dict.mem_entries_of_get? {α : Type} {d : Dict α} {key : String} {value : α}
    (h : d.get? key = some value) : (key, value) ∈ d.entries := by
  obtain ⟨before, after, hentries, -⟩ := List.lookup_eq_some_iff.1 h
  rw [hentries]
  exact List.mem_append_right before List.mem_cons_self

def Dict.All {α : Type} (P : α → Prop) (d : Dict α) : Prop :=
  ∀ key value, d.get? key = some value → P value

theorem Dict.All.insert {α : Type} {P : α → Prop} {d : Dict α} (hd : d.All P) (key : String)
    {value : α} (h : P value) : (d.insert key value).All P := by
  intro k v hget
  rw [Dict.get?_insert] at hget
  split at hget
  · cases hget
    exact h
  · exact hd k v hget

theorem Dict.All.insertAll {α : Type} {P : α → Prop} {d : Dict α} (hd : d.All P)
    (keys : List String) {value : α} (h : P value) : (d.insertAll keys value).All P := by
  unfold Dict.insertAll
  induction keys generalizing d with
  | nil => exact hd
  | cons key keys ih => exact ih (hd.insert key h)

theorem Catalog.exists_get?_of_find? {α : Type} {d : Dict α} {name : String} {value : α}
    (h : Catalog.find? d name = some value) : ∃ key, d.get? key = some value := by
  unfold Catalog.find? at h
  split at h
  · rename_i hkey
    exact ⟨name, h ▸ hkey⟩
  · split at h
    · exact ⟨_, h⟩
    · cases h

/-! ### Enums -/

/-- Every member has an integer of a model as its value. -/
def EnumDef.InRange (e : EnumDef) : Prop :=
  ∀ m ∈ e.cases, IsInt m.value

namespace Catalog

theorem isInt_explicitValue {c : Catalog} {earlier : List EnumCase} {e : Expr} {n : Int}
    (h : c.explicitValue? earlier e = some n) : IsInt n := by
  unfold explicitValue? at h
  split at h
  · cases h
    exact isInt_floatToInt _
  · obtain ⟨found, -, rfl⟩ := Option.map_eq_some_iff.1 h
    exact isInt_floatToInt _

theorem isInt_enumCases (c : Catalog) {members : List EnumMember} {earlier : List EnumCase}
    {next : Int} (hearlier : ∀ m ∈ earlier, IsInt m.value) (hnext : IsInt next) :
    ∀ m ∈ c.enumCases members earlier next, IsInt m.value := by
  induction members generalizing earlier next with
  | nil => exact hearlier
  | cons member members ih =>
    rw [enumCases]
    have hvalue : IsInt ((member.value.bind (c.explicitValue? earlier)).getD next) := by
      cases hexplicit : member.value.bind (c.explicitValue? earlier) with
      | none => exact hnext
      | some n =>
        obtain ⟨e, -, hn⟩ := Option.bind_eq_some_iff.1 hexplicit
        exact isInt_explicitValue hn
    apply ih
    · intro m hm
      rcases List.mem_append.1 hm with hm | hm
      · exact hearlier m hm
      · rw [List.mem_singleton.1 hm]
        exact hvalue
    · exact isInt_nextInt _

theorem inRange_enumDef (c : Catalog) (name : String) (members : List EnumMember) :
    (c.enumDef name members).InRange :=
  c.isInt_enumCases (by simp) (by decide)

theorem enums_addField (keys : List String) (value : Expr) (c : Catalog)
    (pending : List Pending) : (addField keys value c pending).1.enums = c.enums := by
  unfold addField
  split
  · rfl
  · repeat' split
    all_goals rfl

mutual

theorem inRange_addDecl (owner : Option String) :
    ∀ (d : Decl) (s : Catalog × List Pending), s.1.enums.All EnumDef.InRange →
      (addDecl owner d s).1.enums.All EnumDef.InRange
  | .namespaceDecl _ _ body, s, h => by
    rw [addDecl]
    exact inRange_addDecls owner body s h
  | .classDecl _ _ name body, s, h => by
    rw [addDecl]
    exact inRange_addDecls (some name) body s h
  | .enumDecl _ _ name members, (c, pending), h => by
    rw [addDecl]
    exact h.insertAll _ (c.inRange_enumDef name members)
  | .field _ _ _ _ name (some value), (c, pending), h => by
    rw [addDecl, enums_addField]
    exact h
  | .field _ _ _ _ _ none, s, h => by
    rw [addDecl]
    exact h
  | .method .., (c, pending), h => by
    rw [addDecl]
    exact h

theorem inRange_addDecls (owner : Option String) :
    ∀ (ds : List Decl) (s : Catalog × List Pending), s.1.enums.All EnumDef.InRange →
      (addDecls owner ds s).1.enums.All EnumDef.InRange
  | [], s, h => by
    rw [addDecls]
    exact h
  | d :: ds, s, h => by
    rw [addDecls]
    exact inRange_addDecls owner ds _ (inRange_addDecl owner d s h)

end

theorem enums_resolveRound (pending : List Pending) (c : Catalog) :
    (resolveRound pending c).1.enums = c.enums := by
  induction pending generalizing c with
  | nil => rfl
  | cons p pending ih =>
    rw [resolveRound]
    split
    · rw [ih]
    · exact ih c

theorem enums_resolve (rounds : Nat) (c : Catalog) (pending : List Pending) :
    (resolve rounds c pending).enums = c.enums := by
  induction rounds generalizing c pending with
  | zero => rfl
  | succ rounds ih =>
    rw [resolve]
    dsimp only
    split
    · exact enums_resolveRound pending c
    · rw [ih, enums_resolveRound]

theorem inRange_ofTree (t : SourceTree) : (ofTree t).enums.All EnumDef.InRange := by
  unfold ofTree
  dsimp only
  rw [enums_resolve]
  apply inRange_addDecls
  intro key value h
  cases h

theorem isInt_enumValue {c : Catalog} (hc : c.enums.All EnumDef.InRange) {dotted : String}
    {n : Int} (h : c.enumValue? dotted = some n) : IsInt n := by
  unfold enumValue? at h
  split at h
  · obtain ⟨e, he, hn⟩ := Option.bind_eq_some_iff.1 h
    obtain ⟨key, hkey⟩ := exists_get?_of_find? he
    obtain ⟨m, hm, rfl⟩ := Option.map_eq_some_iff.1 hn
    exact hc key e hkey m (List.mem_of_find?_eq_some hm)
  · cases h

end Catalog

end PanelSchema
