import Mathlib.Data.List.Induction
import PanelSchema.Proofs.Catalog.Lookup

/-!
What the members of a class enter in the tables. Each table takes at most one value from a
member, by what the catalog holds when the member is met. Where names are distinct, a table has
under the names of a member what the member entered.
-/

namespace PanelSchema

open Syntax (Expr Decl EnumMember SourceTree)

/-! ### Tables -/

namespace Dict

variable {α : Type}

/-- Puts a value, if there is one, under each of the names. -/
def enter (d : Dict α) (keys : List String) : Option α → Dict α
  | some value => d.insertAll keys value
  | none => d

/-- Puts a value under those of the names that have none. -/
def enterNew (d : Dict α) (keys : List String) : Option α → Dict α
  | some value => keys.foldl (fun d key => d.insertNew key value) d
  | none => d

theorem get?_enter (d : Dict α) (keys : List String) (value : Option α) (key : String) :
    (d.enter keys value).get? key = if key ∈ keys then value.or (d.get? key) else d.get? key := by
  cases value with
  | none => simp [enter]
  | some value => simp [enter, get?_insertAll]

theorem get?_insertNew (d : Dict α) (k key : String) (value : α) :
    (d.insertNew k value).get? key =
      if key = k then (d.get? key).or (some value) else d.get? key := by
  unfold insertNew contains
  by_cases hkey : key = k
  · subst hkey
    cases hget : d.get? key <;> simp [hget]
  · split <;> simp [get?_insert, hkey]

theorem get?_enterNew (d : Dict α) (keys : List String) (value : Option α) (key : String) :
    (d.enterNew keys value).get? key =
      if key ∈ keys then (d.get? key).or value else d.get? key := by
  cases value with
  | none => simp [enterNew]
  | some value =>
    rw [enterNew]
    induction keys generalizing d with
    | nil => simp
    | cons k keys ih =>
      rw [List.foldl_cons, ih, get?_insertNew]
      by_cases hkey : key = k <;> simp [hkey]

end Dict

namespace Catalog

/-! ### Members -/

def memberName : Decl → String
  | .namespaceDecl _ name _ | .classDecl _ _ name _ | .enumDecl _ _ name _
  | .field _ _ _ _ name _ | .method _ _ _ name _ _ => name

def isNested : Decl → Bool
  | .namespaceDecl .. | .classDecl .. => true
  | _ => false

def isField : Decl → Bool
  | .field .. => true
  | _ => false

def isEnum : Decl → Bool
  | .enumDecl .. => true
  | _ => false

def valueOf? : Decl → Option Expr
  | .field _ _ _ _ _ value => value
  | _ => none

def routineOf? : Decl → Option Routine
  | .method _ _ _ name params body => some { name, params, body }
  | _ => none

section

variable (c : Catalog)

def listOf? (e : Expr) : Option (List String) :=
  if (c.captionOf? e).isSome then none else textList? e

def enumOf? : Decl → Option EnumDef
  | .enumDecl _ _ name members => some (c.enumDef name members)
  | _ => none

/-- A reference that has no number yet is looked at again. -/
def deferred (keys : List String) (value : Expr) : List Pending :=
  if (c.evalNumber? value).isNone && isReference value then [{ keys, value }] else []

end

/-- A field of that name and value. -/
def fieldNamed (name : String) (value : Expr) : Decl :=
  .field default [] [] "var" name (some value)

/-- The members of a class, which declare none themselves and whose names have one part. -/
structure Members (owner : String) (ms : List Decl) : Prop where
  owner_plain : '.' ∉ owner.toList
  plain : ∀ d ∈ ms, '.' ∉ (memberName d).toList
  not_nested : ∀ d ∈ ms, isNested d = false

theorem Members.of_subset {owner : String} {ms ms' : List Decl} (h : Members owner ms)
    (hsub : ∀ d ∈ ms', d ∈ ms) : Members owner ms' where
  owner_plain := h.owner_plain
  plain d hd := h.plain d (hsub d hd)
  not_nested d hd := h.not_nested d (hsub d hd)

theorem addField_eq (keys : List String) (value : Expr) (c : Catalog) (pending : List Pending) :
    addField keys value c pending =
      ({ c with
          strings := c.strings.enter keys (literalText? value)
          captions := c.captions.enter keys (c.captionOf? value)
          lists := c.lists.enter keys (c.listOf? value)
          numbers := c.numbers.enter keys (c.evalNumber? value) },
        pending ++ c.deferred keys value) := by
  unfold addField deferred listOf?
  cases value with
  | string => simp [literalText?, captionOf?, textList?, evalNumber?, isReference, Dict.enter]
  | new m type args initializer =>
    have hnumber : c.evalNumber? (.new m type args initializer) = none := by simp [evalNumber?]
    rw [hnumber]
    cases c.captionOf? (.new m type args initializer) with
    | some caption => simp [literalText?, isReference, Dict.enter]
    | none =>
      cases textList? (.new m type args initializer) <;>
        simp [literalText?, isReference, Dict.enter]
  | list m es =>
    have hnumber : c.evalNumber? (.list m es) = none := by simp [evalNumber?]
    rw [hnumber]
    cases textList? (.list m es) <;> simp [literalText?, captionOf?, isReference, Dict.enter]
  | _ =>
    dsimp only [literalText?, captionOf?, textList?, Dict.enter]
    split
    · simp_all
    · split <;> simp_all

theorem addDecl_eq (owner : String) {d : Decl} (hd : isNested d = false) (c : Catalog)
    (pending : List Pending) :
    addDecl (some owner) d (c, pending) =
      ({ strings := c.strings.enter (keysFor (memberName d) (some owner))
          ((valueOf? d).bind literalText?)
         numbers := c.numbers.enter (keysFor (memberName d) (some owner))
          ((valueOf? d).bind c.evalNumber?)
         captions := c.captions.enter (keysFor (memberName d) (some owner))
          ((valueOf? d).bind c.captionOf?)
         lists := c.lists.enter (keysFor (memberName d) (some owner))
          ((valueOf? d).bind c.listOf?)
         enums := c.enums.enter (keysFor (memberName d) (some owner)) (c.enumOf? d)
         routines := c.routines.enterNew (keysFor (memberName d) (some owner)) (routineOf? d) },
        pending ++
          (valueOf? d).elim [] (c.deferred (keysFor (memberName d) (some owner)))) := by
  cases d with
  | namespaceDecl | classDecl => cases hd
  | enumDecl => simp [addDecl, valueOf?, enumOf?, routineOf?, memberName, Dict.enter, Dict.enterNew]
  | method => simp [addDecl, valueOf?, enumOf?, routineOf?, memberName, Dict.enter, Dict.enterNew]
  | field m attributes modifiers type name value =>
    cases value with
    | none => simp [addDecl, valueOf?, enumOf?, routineOf?, Dict.enter, Dict.enterNew]
    | some value =>
      rw [addDecl, addField_eq]
      simp [valueOf?, enumOf?, routineOf?, memberName, Dict.enter, Dict.enterNew]

/-! ### The members of a class, one after another -/

/-- What is known when the members of a class have been met. -/
def collected (owner : String) (ms : List Decl) : Catalog × List Pending :=
  addDecls (some owner) ms ({}, [])

theorem addDecls_append (owner : Option String) (ms ms' : List Decl)
    (s : Catalog × List Pending) :
    addDecls owner (ms ++ ms') s = addDecls owner ms' (addDecls owner ms s) := by
  induction ms generalizing s with
  | nil => rw [List.nil_append, addDecls]
  | cons d ms ih => rw [List.cons_append, addDecls, addDecls, ih]

theorem collected_concat (owner : String) (ms : List Decl) (d : Decl) :
    collected owner (ms ++ [d]) = addDecl (some owner) d (collected owner ms) := by
  unfold collected
  rw [addDecls_append, addDecls, addDecls]

/-- The source of one class. -/
def classTree (m m' : Syntax.Mark) (attributes : List Syntax.Attribute) (owner : String)
    (ms : List Decl) : SourceTree :=
  { mark := m, body := [.classDecl m' attributes owner ms] }

theorem ofTree_classTree (m m' : Syntax.Mark) (attributes : List Syntax.Attribute)
    (owner : String) (ms : List Decl) :
    ofTree (classTree m m' attributes owner ms) =
      resolve (collected owner ms).2.length (collected owner ms).1 (collected owner ms).2 := by
  simp [ofTree, classTree, addDecls, addDecl, collected]

/-- A table of the catalog and what a member enters in it, if its names are new. -/
structure IsTable {α : Type} (table : Catalog → Dict α) (entry : Catalog → Decl → Option α) :
    Prop where
  empty : table {} = {}
  enters : ∀ {owner d c pending key}, isNested d = false →
    (key ∈ keysFor (memberName d) (some owner) → (table c).get? key = none) →
    (table (addDecl (some owner) d (c, pending)).1).get? key =
      if key ∈ keysFor (memberName d) (some owner) then entry c d else (table c).get? key

theorem isTable_of_enter {α : Type} {table : Catalog → Dict α}
    {entry : Catalog → Decl → Option α} (hempty : table {} = {})
    (h : ∀ {owner d c pending}, isNested d = false →
      table (addDecl (some owner) d (c, pending)).1 =
        (table c).enter (keysFor (memberName d) (some owner)) (entry c d)) :
    IsTable table entry where
  empty := hempty
  enters hd hnew := by
    rw [h hd, Dict.get?_enter]
    split
    · rw [hnew ‹_›, Option.or_none]
    · rfl

theorem isTable_strings : IsTable strings fun _ d => (valueOf? d).bind literalText? :=
  isTable_of_enter rfl fun hd => by rw [addDecl_eq _ hd]

theorem isTable_captions : IsTable captions fun c d => (valueOf? d).bind c.captionOf? :=
  isTable_of_enter rfl fun hd => by rw [addDecl_eq _ hd]

theorem isTable_lists : IsTable lists fun c d => (valueOf? d).bind c.listOf? :=
  isTable_of_enter rfl fun hd => by rw [addDecl_eq _ hd]

theorem isTable_enums : IsTable enums fun c d => c.enumOf? d :=
  isTable_of_enter rfl fun hd => by rw [addDecl_eq _ hd]

theorem isTable_routines : IsTable routines fun _ d => routineOf? d where
  empty := rfl
  enters hd hnew := by
    rw [addDecl_eq _ hd, Dict.get?_enterNew]
    split
    · rw [hnew ‹_›, Option.none_or]
    · rfl

namespace IsTable

variable {α : Type} {table : Catalog → Dict α} {entry : Catalog → Decl → Option α}
  {owner key : String} {before after ms : List Decl} {d : Decl}

theorem get?_eq_none (ht : IsTable table entry) (h : Members owner ms)
    (hkey : ∀ d ∈ ms, key ∉ keysFor (memberName d) (some owner)) :
    (table (collected owner ms).1).get? key = none := by
  induction ms using List.reverseRecOn with
  | nil =>
    have hempty : table (collected owner []).1 = {} := ht.empty
    rw [hempty]
    rfl
  | append_singleton ms d ih =>
    simp only [List.forall_mem_append, List.forall_mem_singleton] at hkey
    rw [collected_concat, ht.enters (h.not_nested d (by simp)) fun h => absurd h hkey.2,
      if_neg hkey.2]
    exact ih (h.of_subset (by simp +contextual)) hkey.1

theorem get?_collected (ht : IsTable table entry) (h : Members owner (before ++ d :: after))
    (hnodup : ((before ++ d :: after).map memberName).Nodup)
    (hkey : key ∈ keysFor (memberName d) (some owner)) :
    (table (collected owner (before ++ d :: after)).1).get? key =
      entry (collected owner before).1 d := by
  have hother : ∀ e ∈ before ++ d :: after, memberName e ≠ memberName d →
      key ∉ keysFor (memberName e) (some owner) := by
    intro e he hne hmem
    exact hne (eq_of_mem_keysFor (h.plain e he) (h.plain d (by simp)) h.owner_plain hmem hkey)
  rw [List.map_append, List.map_cons, List.perm_middle.nodup_iff, List.nodup_cons,
    ← List.map_append] at hnodup
  have hnew : ∀ e ∈ before ++ after, key ∉ keysFor (memberName e) (some owner) := by
    intro e he
    refine hother e ?_ fun hname => hnodup.1 (hname ▸ List.mem_map_of_mem he)
    rw [List.mem_append] at he ⊢
    exact he.imp_right (List.mem_cons_of_mem d)
  rw [List.forall_mem_append] at hnew
  have hnone : (table (collected owner before).1).get? key = none :=
    ht.get?_eq_none (h.of_subset (by simp +contextual)) hnew.1
  clear hother hnodup
  -- Members that come later do not have the name.
  induction after using List.reverseRecOn with
  | nil => rw [collected_concat, ht.enters (h.not_nested d (by simp)) fun _ => hnone, if_pos hkey]
  | append_singleton after e ih =>
    simp only [List.forall_mem_append, List.forall_mem_singleton] at hnew
    rw [← List.cons_append, ← List.append_assoc, collected_concat,
      ht.enters (h.not_nested e (by simp)) fun h => absurd h hnew.2.2, if_neg hnew.2.2]
    exact ih (h.of_subset (by simp +contextual [or_imp])) ⟨hnew.1, hnew.2.1⟩

end IsTable

end Catalog

end PanelSchema
