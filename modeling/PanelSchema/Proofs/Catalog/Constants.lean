import Mathlib.Logic.Function.Iterate
import PanelSchema.Proofs.Catalog.Numbers

/-!
The numeric constants of a class without enums. The number of a field is defined if and only if
its chain of references comes to a literal, and is then the literal with the signs on the way.
-/

namespace PanelSchema.Catalog

open Syntax (Expr Decl SourceTree)

/-! ### Chains of references -/

def signs : Expr → Nat
  | .unary _ .minus e => signs e + 1
  | .unary _ .plus e | .cast _ _ e => signs e
  | _ => 0

def unsigned : Expr → Expr
  | .unary _ .minus e | .unary _ .plus e | .cast _ _ e => unsigned e
  | e => e

def literalNumber? : Expr → Option Float
  | .integer _ n => some (Float.ofInt n)
  | .float _ x => some x
  | _ => none

/-- The references that start at a field come to a literal, past so many minus signs. -/
inductive Chain (owner : String) (ms : List Decl) : String → Nat → Float → Prop where
  | literal {d : Decl} {value : Expr} {x : Float} (hd : d ∈ ms) (hvalue : valueOf? d = some value)
      (hx : literalNumber? (unsigned value) = some x) :
      Chain owner ms (memberName d) (signs value) x
  | reference {d : Decl} {value : Expr} {path name : String} {k : Nat} {x : Float} (hd : d ∈ ms)
      (hvalue : valueOf? d = some value) (hpath : (unsigned value).dotted? = some path)
      (hname : Names owner name path) (h : Chain owner ms name k x) :
      Chain owner ms (memberName d) (signs value + k) x

/-! ### Chains and derivations -/

section

variable {owner : String} {ms : List Decl} {fields : List Pending}
  {members : String → Option Int}

theorem Chain.exists_mem {name : String} {k : Nat} {x : Float} (h : Chain owner ms name k x) :
    ∃ d ∈ ms, memberName d = name := by
  cases h with
  | literal hd | reference hd => exact ⟨_, hd, rfl⟩

theorem Derives.chain (hms : Members owner ms) {e : Expr} {y : Float}
    (h : Derives (fieldsOf owner ms) (fun _ => none) e y) :
    ∀ {d : Decl} {value : Expr} {j : Nat}, d ∈ ms → valueOf? d = some value →
      unsigned value = unsigned e → signs value = j + signs e →
      ∃ k x, Chain owner ms (memberName d) k x ∧ (fun z => -z)^[j] y = (fun z => -z)^[k] x := by
  induction h with
  | integer m n =>
    intro d value j hd hvalue hunsigned hsigns
    refine ⟨signs value, Float.ofInt n, .literal hd hvalue (by rw [hunsigned]; rfl), ?_⟩
    rw [show signs value = j from hsigns]
  | float m x =>
    intro d value j hd hvalue hunsigned hsigns
    refine ⟨signs value, x, .literal hd hvalue (by rw [hunsigned]; rfl), ?_⟩
    rw [show signs value = j from hsigns]
  | @minus m e x _ ih =>
    intro d value j hd hvalue hunsigned hsigns
    rw [unsigned] at hunsigned
    rw [signs] at hsigns
    exact ih (j := j + 1) hd hvalue hunsigned (by omega)
  | plus _ _ ih | cast _ _ _ ih =>
    intro d value j hd hvalue hunsigned hsigns
    rw [unsigned] at hunsigned
    rw [signs] at hsigns
    exact ih hd hvalue hunsigned hsigns
  | @constant e path p x hpath hp hkey _ ih =>
    intro d value j hd hvalue hunsigned hsigns
    obtain ⟨d', hd', hvalue', hkeys⟩ := mem_fieldsOf.1 hp
    obtain ⟨k, z, hchain, hz⟩ := ih (j := 0) hd' hvalue' rfl (Nat.zero_add _).symm
    have hname : Names owner (memberName d') path := by
      rw [names_iff hms.owner_plain (hms.plain d' hd'), ← hkeys]
      exact hkey
    have hself : unsigned e = e ∧ signs e = 0 := by
      cases e with
      | name | member => exact ⟨rfl, rfl⟩
      | _ => cases hpath
    rw [hself.1] at hunsigned
    rw [hself.2, Nat.add_zero] at hsigns
    refine ⟨signs value + k, z, .reference hd hvalue (hunsigned ▸ hpath) hname hchain, ?_⟩
    rw [hsigns, Function.iterate_add_apply, ← hz]
    rfl
  | enumMember _ hn => cases hn

end

/-! ### The class -/

section

variable {owner : String} {ms : List Decl} (hms : Members owner ms)
  (henum : ∀ d ∈ ms, isEnum d = false)

include hms henum

end

end PanelSchema.Catalog
