import Mathlib.Data.List.Nodup
import PanelSchema.Proofs.Catalog.Members

/-!
The numbers of a class are the least that its fields ask for. A number is derived from a literal
through signs, casts and references. The members are met one after another, and references that
have no number yet are looked at again until nothing changes; what is known then is what can be
derived, in whichever order the members were met.
-/

namespace PanelSchema.Catalog

open Syntax (Expr Decl)

/-! ### What can be derived -/

/-- A number that an expression has, given the fields of a class and the values of the members
of its enums. -/
inductive Derives (fields : List Pending) (members : String → Option Int) :
    Expr → Float → Prop where
  | integer (m : Syntax.Mark) (n : Int) : Derives fields members (.integer m n) (Float.ofInt n)
  | float (m : Syntax.Mark) (x : Float) : Derives fields members (.float m x) x
  | minus (m : Syntax.Mark) {e : Expr} {x : Float} (h : Derives fields members e x) :
      Derives fields members (.unary m .minus e) (-x)
  | plus (m : Syntax.Mark) {e : Expr} {x : Float} (h : Derives fields members e x) :
      Derives fields members (.unary m .plus e) x
  | cast (m : Syntax.Mark) (type : String) {e : Expr} {x : Float} (h : Derives fields members e x) :
      Derives fields members (.cast m type e) x
  | constant {e : Expr} {path : String} {p : Pending} {x : Float} (hpath : e.dotted? = some path)
      (hp : p ∈ fields) (hkey : keyOf path ∈ p.keys) (h : Derives fields members p.value x) :
      Derives fields members e x
  | enumMember {e : Expr} {path : String} {n : Int} (hpath : e.dotted? = some path)
      (hn : members path = some n) : Derives fields members e (Float.ofInt n)

/-- No path means two things: a name has at most two parts and belongs to one field, and what is
a member of an enum is no field. -/
structure Unambiguous (fields : List Pending) (members : String → Option Int) : Prop where
  short : ∀ p ∈ fields, ∀ key ∈ p.keys, (dottedParts key).length ≤ 2
  eq_of_mem : ∀ p ∈ fields, ∀ q ∈ fields, ∀ key ∈ p.keys, key ∈ q.keys → p = q
  apart : ∀ path n, members path = some n → ∀ p ∈ fields, keyOf path ∉ p.keys

section

variable {fields : List Pending} {members : String → Option Int}

theorem Derives.mono {fields' : List Pending} {members' : String → Option Int}
    (hfields : ∀ p ∈ fields, p ∈ fields')
    (hmembers : ∀ path n, members path = some n → members' path = some n) {e : Expr} {x : Float}
    (h : Derives fields members e x) : Derives fields' members' e x := by
  induction h with
  | integer m n => exact .integer m n
  | float m x => exact .float m x
  | minus m _ ih => exact .minus m ih
  | plus m _ ih => exact .plus m ih
  | cast m type _ ih => exact .cast m type ih
  | constant hpath hp hkey _ ih => exact .constant hpath (hfields _ hp) hkey ih
  | enumMember hpath hn => exact .enumMember hpath (hmembers _ _ hn)

theorem Derives.unique (hfields : Unambiguous fields members) {e : Expr} {x y : Float}
    (hx : Derives fields members e x) (hy : Derives fields members e y) : x = y := by
  induction hx generalizing y with
  | integer =>
    cases hy with
    | integer => rfl
    | constant hpath | enumMember hpath => cases hpath
  | float =>
    cases hy with
    | float => rfl
    | constant hpath | enumMember hpath => cases hpath
  | minus _ _ ih =>
    cases hy with
    | minus _ h => rw [ih h]
    | constant hpath | enumMember hpath => cases hpath
  | plus _ _ ih =>
    cases hy with
    | plus _ h => exact ih h
    | constant hpath | enumMember hpath => cases hpath
  | cast _ _ _ ih =>
    cases hy with
    | cast _ _ h => exact ih h
    | constant hpath | enumMember hpath => cases hpath
  | @constant e path p x hpath hp hkey _ ih =>
    cases hy with
    | integer | float | minus | plus | cast => cases hpath
    | @constant _ path' q _ hpath' hq hkey' h =>
      cases hpath.symm.trans hpath'
      cases hfields.eq_of_mem p hp q hq _ hkey hkey'
      exact ih h
    | enumMember hpath' hn =>
      cases hpath.symm.trans hpath'
      exact absurd hkey (hfields.apart _ _ hn p hp)
  | @enumMember e path n hpath hn =>
    cases hy with
    | integer | float | minus | plus | cast => cases hpath
    | @constant _ path' q _ hpath' hq hkey' h =>
      cases hpath.symm.trans hpath'
      exact absurd hkey' (hfields.apart _ _ hn q hq)
    | enumMember hpath' hn' =>
      cases hpath.symm.trans hpath'
      cases hn.symm.trans hn'
      rfl

/-! ### Evaluation -/

/-- What the catalog knows can be derived. -/
structure Sound (fields : List Pending) (members : String → Option Int) (c : Catalog) : Prop where
  numbers : ∀ key x, c.numbers.get? key = some x →
    ∃ p ∈ fields, key ∈ p.keys ∧ Derives fields members p.value x
  enums : ∀ path n, c.enumValue? path = some n → members path = some n

theorem Sound.number? {c : Catalog} (hfields : Unambiguous fields members)
    (hc : Sound fields members c) (path : String) :
    c.number? path = c.numbers.get? (keyOf path) := by
  refine find?_eq_get? (fun key x hkey => ?_) path
  obtain ⟨p, hp, hmem, -⟩ := hc.numbers key x hkey
  exact hfields.short p hp key hmem

theorem evalNumber?_of_dotted (c : Catalog) {e : Expr} {path : String}
    (h : e.dotted? = some path) :
    c.evalNumber? e = (c.number? path).or ((c.enumValue? path).map Float.ofInt) := by
  cases e with
  | name | member =>
    unfold evalNumber?
    rw [h, Option.bind_some]
    cases c.number? path <;> rfl
  | _ => cases h

theorem derives_of_dotted {c : Catalog} (hfields : Unambiguous fields members)
    (hc : Sound fields members c) {e : Expr} {x : Float} (h : c.evalNumber? e = some x)
    (hdotted : e.dotted? ≠ none) : Derives fields members e x := by
  obtain ⟨path, hpath⟩ := Option.ne_none_iff_exists'.1 hdotted
  rw [evalNumber?_of_dotted c hpath, hc.number? hfields, Option.or_eq_some_iff] at h
  rcases h with h | ⟨-, h⟩
  · obtain ⟨p, hp, hkey, hvalue⟩ := hc.numbers _ _ h
    exact .constant hpath hp hkey hvalue
  · obtain ⟨n, hn, rfl⟩ := Option.map_eq_some_iff.1 h
    exact .enumMember hpath (hc.enums path n hn)

theorem derives_of_evalNumber? {c : Catalog} (hfields : Unambiguous fields members)
    (hc : Sound fields members c) :
    ∀ (e : Expr) (x : Float), c.evalNumber? e = some x → Derives fields members e x
  | .integer m n, x, h => by
    rw [evalNumber?] at h
    cases h
    exact .integer m n
  | .float m y, x, h => by
    rw [evalNumber?] at h
    cases h
    exact .float m y
  | .unary m .minus e, x, h => by
    rw [evalNumber?] at h
    obtain ⟨y, hy, rfl⟩ := Option.map_eq_some_iff.1 h
    exact .minus m (derives_of_evalNumber? hfields hc e y hy)
  | .unary m .plus e, x, h => by
    rw [evalNumber?] at h
    exact .plus m (derives_of_evalNumber? hfields hc e x h)
  | .cast m type e, x, h => by
    rw [evalNumber?] at h
    exact .cast m type (derives_of_evalNumber? hfields hc e x h)
  | .name m name, x, h => derives_of_dotted hfields hc h (by simp [Expr.dotted?])
  | .member m object name, x, h => by
    refine derives_of_dotted hfields hc h fun hnone => ?_
    simp [evalNumber?, hnone] at h
  | .unary _ .inc _, x, h | .unary _ .dec _, x, h | .unary _ .not _, x, h
  | .unary _ .bitNot _, x, h | .binary .., x, h | .assign .., x, h | .conditional .., x, h
  | .call .., x, h | .index .., x, h | .new .., x, h | .typeOf .., x, h | .string .., x, h
  | .bool .., x, h | .list .., x, h | .null .., x, h => by
    simp [evalNumber?] at h

def Inert (e : Expr) : Prop :=
  ∀ c : Catalog, c.evalNumber? e = none

theorem inert_of_not_reference {c : Catalog} :
    ∀ e : Expr, c.evalNumber? e = none → isReference e = false → Inert e
  | .integer m n, h, _ | .float m y, h, _ => by simp [evalNumber?] at h
  | .unary m .minus e, h, href => by
    rw [evalNumber?, Option.map_eq_none_iff] at h
    rw [isReference] at href
    intro c'
    rw [evalNumber?, inert_of_not_reference e h href c', Option.map_none]
  | .unary m .plus e, h, href | .cast m type e, h, href => by
    rw [evalNumber?] at h
    rw [isReference] at href
    intro c'
    rw [evalNumber?, inert_of_not_reference e h href c']
  | .name .., _, href | .member .., _, href => by simp [isReference] at href
  | .unary _ .inc _, _, _ | .unary _ .dec _, _, _ | .unary _ .not _, _, _
  | .unary _ .bitNot _, _, _ | .binary .., _, _ | .assign .., _, _ | .conditional .., _, _
  | .call .., _, _ | .index .., _, _ | .new .., _, _ | .typeOf .., _, _ | .string .., _, _
  | .bool .., _, _ | .list .., _, _ | .null .., _, _ => fun c' => by simp [evalNumber?]

/-! ### Rounds -/

def Known (c : Catalog) (p : Pending) : Prop :=
  ∀ key ∈ p.keys, (c.numbers.get? key).isSome

def learn (c : Catalog) (p : Pending) (x : Float) : Catalog :=
  { c with numbers := c.numbers.insertAll p.keys x }

theorem known_learn_self (c : Catalog) (p : Pending) (x : Float) : Known (c.learn p x) p := by
  intro key hkey
  rw [learn, Dict.get?_insertAll, if_pos hkey, Option.isSome_some]

theorem Known.learn {c : Catalog} {p : Pending} (h : Known c p) (q : Pending) (x : Float) :
    Known (c.learn q x) p := by
  intro key hkey
  rw [Catalog.learn, Dict.get?_insertAll]
  split
  · exact Option.isSome_some
  · exact h key hkey

theorem Sound.learn {c : Catalog} (hc : Sound fields members c) {p : Pending} (hp : p ∈ fields)
    {x : Float} (hx : Derives fields members p.value x) : Sound fields members (c.learn p x) where
  numbers key y hkey := by
    rw [Catalog.learn, Dict.get?_insertAll] at hkey
    split at hkey
    · cases hkey
      exact ⟨p, hp, ‹_›, hx⟩
    · exact hc.numbers key y hkey
  enums := hc.enums

theorem resolveRound_of_some {c : Catalog} {p : Pending} {x : Float}
    (h : c.evalNumber? p.value = some x) (rest : List Pending) :
    resolveRound (p :: rest) c = resolveRound rest (c.learn p x) := by
  rw [resolveRound, h]
  rfl

theorem resolveRound_of_none {c : Catalog} {p : Pending} (h : c.evalNumber? p.value = none)
    (rest : List Pending) :
    resolveRound (p :: rest) c = ((resolveRound rest c).1, p :: (resolveRound rest c).2) := by
  rw [resolveRound, h]

theorem remaining_sublist (pending : List Pending) (c : Catalog) :
    (resolveRound pending c).2.Sublist pending := by
  induction pending generalizing c with
  | nil => exact .slnil
  | cons p rest ih =>
    cases hvalue : c.evalNumber? p.value with
    | some x =>
      rw [resolveRound_of_some hvalue]
      exact (ih _).cons p
    | none =>
      rw [resolveRound_of_none hvalue]
      exact (ih c).cons_cons p

theorem known_resolveRound {p : Pending} (pending : List Pending) {c : Catalog} (h : Known c p) :
    Known (resolveRound pending c).1 p := by
  induction pending generalizing c with
  | nil => exact h
  | cons q rest ih =>
    cases hvalue : c.evalNumber? q.value with
    | some x =>
      rw [resolveRound_of_some hvalue]
      exact ih (h.learn q x)
    | none =>
      rw [resolveRound_of_none hvalue]
      exact ih h

theorem known_or_remaining {p : Pending} {pending : List Pending} (hp : p ∈ pending)
    (c : Catalog) : Known (resolveRound pending c).1 p ∨ p ∈ (resolveRound pending c).2 := by
  induction pending generalizing c with
  | nil => cases hp
  | cons q rest ih =>
    cases hvalue : c.evalNumber? q.value with
    | some x =>
      rw [resolveRound_of_some hvalue]
      rcases List.mem_cons.1 hp with rfl | hp
      · exact .inl (known_resolveRound rest (known_learn_self c p x))
      · exact ih hp _
    | none =>
      rw [resolveRound_of_none hvalue]
      rcases List.mem_cons.1 hp with rfl | hp
      · exact .inr List.mem_cons_self
      · exact (ih hp c).imp_right (List.mem_cons_of_mem q)

theorem resolveRound_still {pending : List Pending} {c : Catalog}
    (h : (resolveRound pending c).2.length = pending.length) :
    (resolveRound pending c).1 = c ∧ ∀ p ∈ pending, c.evalNumber? p.value = none := by
  induction pending with
  | nil => exact ⟨rfl, nofun⟩
  | cons q rest ih =>
    cases hvalue : c.evalNumber? q.value with
    | some x =>
      rw [resolveRound_of_some hvalue, List.length_cons] at h
      have hle := (remaining_sublist rest (c.learn q x)).length_le
      omega
    | none =>
      rw [resolveRound_of_none hvalue, List.length_cons, List.length_cons, Nat.add_right_cancel_iff]
        at h
      rw [resolveRound_of_none hvalue, List.forall_mem_cons]
      exact ⟨(ih h).1, hvalue, (ih h).2⟩

theorem sound_resolveRound (hfields : Unambiguous fields members) {pending : List Pending}
    (hpending : ∀ p ∈ pending, p ∈ fields) {c : Catalog} (hc : Sound fields members c) :
    Sound fields members (resolveRound pending c).1 := by
  induction pending generalizing c with
  | nil => exact hc
  | cons p rest ih =>
    rw [List.forall_mem_cons] at hpending
    cases hvalue : c.evalNumber? p.value with
    | some x =>
      rw [resolveRound_of_some hvalue]
      exact ih hpending.2 (hc.learn hpending.1 (derives_of_evalNumber? hfields hc _ _ hvalue))
    | none =>
      rw [resolveRound_of_none hvalue]
      exact ih hpending.2 hc

theorem resolveRound_frame (pending : List Pending) (c : Catalog) :
    (resolveRound pending c).1 = { c with numbers := (resolveRound pending c).1.numbers } := by
  induction pending generalizing c with
  | nil => rfl
  | cons p rest ih =>
    cases hvalue : c.evalNumber? p.value with
    | some x =>
      rw [resolveRound_of_some hvalue]
      exact ih _
    | none =>
      rw [resolveRound_of_none hvalue]
      exact ih c

/-! ### Rounds until nothing changes -/

/-- Rounds, as many as it takes, end in that catalog. -/
inductive Settles : Catalog → List Pending → Catalog → Prop where
  | still {c : Catalog} {pending : List Pending}
      (h : (resolveRound pending c).2.length = pending.length) :
      Settles c pending (resolveRound pending c).1
  | again {c c' : Catalog} {pending : List Pending}
      (hless : (resolveRound pending c).2.length < pending.length)
      (h : Settles (resolveRound pending c).1 (resolveRound pending c).2 c') : Settles c pending c'

theorem settles_resolve {rounds : Nat} {c : Catalog} {pending : List Pending}
    (h : pending.length ≤ rounds) : Settles c pending (resolve rounds c pending) := by
  induction rounds generalizing c pending with
  | zero =>
    cases List.length_eq_zero_iff.1 (Nat.le_zero.1 h)
    exact .still rfl
  | succ rounds ih =>
    have hle := (remaining_sublist pending c).length_le
    rw [resolve]
    dsimp only
    split
    · exact .still ‹_›
    · exact .again (by omega) (ih (by omega))

theorem Settles.frame {c c' : Catalog} {pending : List Pending} (h : Settles c pending c') :
    c' = { c with numbers := c'.numbers } := by
  induction h with
  | still => exact resolveRound_frame _ _
  | again _ _ ih =>
    rw [resolveRound_frame] at ih
    exact ih

theorem Settles.settled (hfields : Unambiguous fields members) {c c' : Catalog}
    {pending : List Pending} (h : Settles c pending c') (hc : Sound fields members c)
    (hpending : ∀ p ∈ pending, p ∈ fields)
    (hcovered : ∀ p ∈ fields, Known c p ∨ p ∈ pending ∨ Inert p.value) :
    Sound fields members c' ∧ ∀ p ∈ fields, Known c' p ∨ c'.evalNumber? p.value = none := by
  induction h with
  | @still c pending hstill =>
    obtain ⟨heq, hnone⟩ := resolveRound_still hstill
    rw [heq]
    refine ⟨hc, fun p hp => ?_⟩
    rcases hcovered p hp with h | h | h
    · exact .inl h
    · exact .inr (hnone p h)
    · exact .inr (h c)
  | @again c c' pending _ _ ih =>
    refine ih (sound_resolveRound hfields hpending hc)
      (fun p hp => hpending p ((remaining_sublist pending c).subset hp)) fun p hp => ?_
    rcases hcovered p hp with h | h | h
    · exact .inl (known_resolveRound pending h)
    · exact (known_or_remaining h c).imp_right .inl
    · exact .inr (.inr h)

/-! ### What is known at the end -/

section

variable {c : Catalog} (hfields : Unambiguous fields members) (hc : Sound fields members c)
  (hknown : ∀ p ∈ fields, Known c p ∨ c.evalNumber? p.value = none)
  (hmembers : ∀ path n, members path = some n → c.enumValue? path = some n)

include hfields hc hknown hmembers

theorem evalNumber?_of_derives {e : Expr} {x : Float} (h : Derives fields members e x) :
    c.evalNumber? e = some x := by
  induction h with
  | integer | float => rw [evalNumber?]
  | minus _ _ ih => rw [evalNumber?, ih, Option.map_some]
  | plus _ _ ih | cast _ _ _ ih => rw [evalNumber?, ih]
  | @constant e path p x hpath hp hkey hvalue ih =>
    rw [evalNumber?_of_dotted c hpath, hc.number? hfields]
    rcases hknown p hp with h | h
    · obtain ⟨y, hy⟩ := Option.isSome_iff_exists.1 (h _ hkey)
      obtain ⟨q, hq, hkey', hvalue'⟩ := hc.numbers _ y hy
      cases hfields.eq_of_mem p hp q hq _ hkey hkey'
      rw [hy, hvalue'.unique hfields hvalue, Option.some_or]
    · rw [ih] at h
      cases h
  | @enumMember e path n hpath hn =>
    have hnone : c.numbers.get? (keyOf path) = none := by
      cases hget : c.numbers.get? (keyOf path) with
      | none => rfl
      | some y =>
        obtain ⟨p, hp, hkey, -⟩ := hc.numbers _ y hget
        exact absurd hkey (hfields.apart path n hn p hp)
    rw [evalNumber?_of_dotted c hpath, hc.number? hfields, hnone, hmembers path n hn]
    rfl

/-- The numbers at the end are those that can be derived. -/
theorem get?_numbers_iff {key : String} {x : Float} :
    c.numbers.get? key = some x ↔
      ∃ p ∈ fields, key ∈ p.keys ∧ Derives fields members p.value x := by
  refine ⟨hc.numbers key x, ?_⟩
  rintro ⟨p, hp, hkey, hvalue⟩
  rcases hknown p hp with h | h
  · obtain ⟨y, hy⟩ := Option.isSome_iff_exists.1 (h key hkey)
    obtain ⟨q, hq, hkey', hvalue'⟩ := hc.numbers key y hy
    cases hfields.eq_of_mem p hp q hq key hkey hkey'
    rw [hy, hvalue'.unique hfields hvalue]
  · rw [evalNumber?_of_derives hfields hc hknown hmembers hvalue] at h
    cases h

end

/-! ### The fields of a class -/

def fieldOf? (owner : String) (d : Decl) : Option Pending :=
  (valueOf? d).map fun value => { keys := keysFor (memberName d) (some owner), value }

def fieldsOf (owner : String) (ms : List Decl) : List Pending :=
  ms.filterMap (fieldOf? owner)

theorem mem_fieldsOf {owner : String} {ms : List Decl} {p : Pending} :
    p ∈ fieldsOf owner ms ↔ ∃ d ∈ ms, valueOf? d = some p.value ∧
      p.keys = keysFor (memberName d) (some owner) := by
  unfold fieldsOf fieldOf?
  simp only [List.mem_filterMap, Option.map_eq_some_iff]
  constructor
  · rintro ⟨d, hd, value, hvalue, rfl⟩
    exact ⟨d, hd, hvalue, rfl⟩
  · rintro ⟨d, hd, hvalue, hkeys⟩
    exact ⟨d, hd, p.value, hvalue, by rw [← hkeys]⟩

theorem isField_of_valueOf? {d : Decl} {value : Expr} (h : valueOf? d = some value) :
    isField d = true := by
  cases d <;> first | rfl | cases h

theorem unambiguous_fieldsOf {owner : String} {ms : List Decl} (hms : Members owner ms)
    (hnodup : ((ms.filter isField).map memberName).Nodup)
    (hapart : ∀ path n, members path = some n → ∀ d ∈ ms,
      keyOf path ∉ keysFor (memberName d) (some owner)) :
    Unambiguous (fieldsOf owner ms) members where
  short p hp key hkey := by
    obtain ⟨d, hd, -, hkeys⟩ := mem_fieldsOf.1 hp
    exact length_dottedParts_le (hms.plain d hd) hms.owner_plain (hkeys ▸ hkey)
  eq_of_mem p hp q hq key hkey hkey' := by
    obtain ⟨d, hd, hvalue, hkeys⟩ := mem_fieldsOf.1 hp
    obtain ⟨d', hd', hvalue', hkeys'⟩ := mem_fieldsOf.1 hq
    rw [hkeys] at hkey
    rw [hkeys'] at hkey'
    have hname := eq_of_mem_keysFor (hms.plain d hd) (hms.plain d' hd') hms.owner_plain hkey hkey'
    have hsame : d = d' := List.inj_on_of_nodup_map hnodup
      (List.mem_filter.2 ⟨hd, isField_of_valueOf? hvalue⟩)
      (List.mem_filter.2 ⟨hd', isField_of_valueOf? hvalue'⟩) hname
    subst hsame
    cases p
    cases q
    simp_all
  apart path n hn p hp := by
    obtain ⟨d, hd, -, hkeys⟩ := mem_fieldsOf.1 hp
    rw [hkeys]
    exact hapart path n hn d hd

theorem fieldsOf_concat (owner : String) (ms : List Decl) (d : Decl) :
    fieldsOf owner (ms ++ [d]) = fieldsOf owner ms ++ (fieldOf? owner d).toList := by
  rw [fieldsOf, List.filterMap_append]
  cases h : fieldOf? owner d <;> simp [fieldsOf, h]

/-- A member that is met gives its number, or is looked at again unless it never has one. -/
theorem addDecl_numbers (owner : String) {d : Decl} (hd : isNested d = false) (c : Catalog)
    (pending : List Pending) :
    (∃ p x, fieldOf? owner d = some p ∧ c.evalNumber? p.value = some x ∧
        (addDecl (some owner) d (c, pending)).1.numbers = (c.learn p x).numbers ∧
        (addDecl (some owner) d (c, pending)).2 = pending) ∨
      (addDecl (some owner) d (c, pending)).1.numbers = c.numbers ∧
        ∃ more, (addDecl (some owner) d (c, pending)).2 = pending ++ more ∧
          (∀ p ∈ more, fieldOf? owner d = some p) ∧
          ∀ p, fieldOf? owner d = some p → p ∈ more ∨ Inert p.value := by
  rw [addDecl_eq owner hd]
  unfold fieldOf? deferred
  cases valueOf? d with
  | none => simp [Dict.enter]
  | some value =>
    cases hvalue : c.evalNumber? value with
    | some x => simp [Dict.enter, hvalue, learn]
    | none =>
      cases href : isReference value with
      | true => simp [Dict.enter, hvalue, href]
      | false =>
        have hinert : Inert value := inert_of_not_reference value hvalue href
        simp [Dict.enter, hvalue, href, hinert]

/-- What holds when some of the fields have been met: each has its number, is looked at again or
never has one. -/
structure Collects (fields : List Pending) (members : String → Option Int) (seen : List Pending)
    (s : Catalog × List Pending) : Prop where
  sound : Sound fields members s.1
  pending_mem : ∀ p ∈ s.2, p ∈ fields
  covered : ∀ p ∈ seen, Known s.1 p ∨ p ∈ s.2 ∨ Inert p.value

theorem Collects.addDecl (hfields : Unambiguous fields members) {owner : String} {d : Decl}
    (hd : isNested d = false) {seen : List Pending} {s : Catalog × List Pending}
    (hs : Collects fields members seen s) (hfield : ∀ p, fieldOf? owner d = some p → p ∈ fields)
    (henums : ∀ path n, (addDecl (some owner) d s).1.enumValue? path = some n →
      members path = some n) :
    Collects fields members (seen ++ (fieldOf? owner d).toList) (addDecl (some owner) d s) := by
  obtain ⟨c, pending⟩ := s
  rcases addDecl_numbers owner hd c pending with ⟨p, x, hp, hx, hnumbers, hpending⟩ |
    ⟨hnumbers, more, hpending, hmore, hcovered⟩
  · have hlearn := hs.sound.learn (hfield p hp) (derives_of_evalNumber? hfields hs.sound _ _ hx)
    have hknown : ∀ q, Known (c.learn p x) q →
        Known (Catalog.addDecl (some owner) d (c, pending)).1 q := by
      intro q hq key hkey
      rw [hnumbers]
      exact hq key hkey
    refine ⟨⟨?_, henums⟩, ?_, ?_⟩
    · rw [hnumbers]
      exact hlearn.numbers
    · rw [hpending]
      exact hs.pending_mem
    · rw [hpending, hp]
      simp only [Option.toList_some, List.forall_mem_append, List.forall_mem_singleton]
      refine ⟨fun q hq => ?_, .inl (hknown p (known_learn_self c p x))⟩
      exact (hs.covered q hq).imp_left fun h => hknown q (h.learn p x)
  · refine ⟨⟨?_, henums⟩, ?_, ?_⟩
    · rw [hnumbers]
      exact hs.sound.numbers
    · rw [hpending, List.forall_mem_append]
      exact ⟨hs.pending_mem, fun p hp => hfield p (hmore p hp)⟩
    · unfold Known
      rw [hnumbers, hpending, List.forall_mem_append]
      refine ⟨fun p hp => ?_, fun p hp => .inr ?_⟩
      · exact (hs.covered p hp).imp_right (.imp_left (List.mem_append_left more))
      · exact (hcovered p (Option.mem_toList.1 hp)).imp_left (List.mem_append_right pending)

theorem collects_collected (hfields : Unambiguous fields members) {owner : String}
    {ms : List Decl} (hms : Members owner ms) (hsub : ∀ p ∈ fieldsOf owner ms, p ∈ fields)
    (henums : ∀ before after, ms = before ++ after → ∀ path n,
      (collected owner before).1.enumValue? path = some n → members path = some n) :
    Collects fields members (fieldsOf owner ms) (collected owner ms) := by
  induction ms using List.reverseRecOn with
  | nil =>
    refine ⟨⟨fun key x hkey => ?_, henums [] [] rfl⟩, nofun, nofun⟩
    cases hkey
  | append_singleton ms d ih =>
    rw [fieldsOf_concat, List.forall_mem_append] at hsub
    have hlast := henums (ms ++ [d]) [] (List.append_nil _).symm
    rw [collected_concat] at hlast
    rw [fieldsOf_concat, collected_concat]
    refine (ih (hms.of_subset (by simp +contextual)) hsub.1 fun before after heq => ?_).addDecl
      hfields (hms.not_nested d (by simp)) (fun p hp => hsub.2 p (by simp [hp])) hlast
    exact henums before (after ++ [d]) (by rw [heq, List.append_assoc])

/-- The numbers of a class are those that can be derived from its fields, where what an enum is
known to hold early it holds to the end. -/
theorem get?_numbers_class {owner : String} {ms : List Decl} (hms : Members owner ms)
    (hfields : Unambiguous (fieldsOf owner ms) (collected owner ms).1.enumValue?)
    (henums : ∀ before after, ms = before ++ after → ∀ path n,
      (collected owner before).1.enumValue? path = some n →
        (collected owner ms).1.enumValue? path = some n)
    {c : Catalog} (hc : Settles (collected owner ms).1 (collected owner ms).2 c) {key : String}
    {x : Float} :
    c.numbers.get? key = some x ↔ ∃ p ∈ fieldsOf owner ms, key ∈ p.keys ∧
      Derives (fieldsOf owner ms) (collected owner ms).1.enumValue? p.value x := by
  have h := collects_collected hfields hms (fun p hp => hp) henums
  obtain ⟨hsound, hknown⟩ := hc.settled hfields h.sound h.pending_mem h.covered
  refine get?_numbers_iff hfields hsound hknown fun path n hn => ?_
  rw [hc.frame]
  exact hn

theorem settles_ofTree (m m' : Syntax.Mark) (attributes : List Syntax.Attribute) (owner : String)
    (ms : List Decl) :
    Settles (collected owner ms).1 (collected owner ms).2
      (ofTree (classTree m m' attributes owner ms)) := by
  rw [ofTree_classTree]
  exact settles_resolve (Nat.le_refl _)

end

end PanelSchema.Catalog
