import PanelSchema.Dict
import PanelSchema.Model.Basic
import PanelSchema.Syntax.Tree

/-! Locals that stand for a property, and the values they can take. -/

namespace PanelSchema

open Syntax (Expr)

inductive Domain where
  /-- Declared values, in declaration order. -/
  | values (ns : List Int)
  /-- The integers between two bounds. -/
  | range (min max : Float)
deriving Repr, Inhabited

/-- The integers from `lo` to `hi`, both included. -/
def intsBetween (lo hi : Int) : List Int :=
  (List.range (hi + 1 - lo).toNat).map fun (i : Nat) => lo + i

/-- The members, if there are at most `cap` of them. The width of a range is
compared as a float would hold it. -/
def Domain.members? (cap : Nat) : Domain → Option (List Int)
  | .values ns => if ns.length ≤ cap then some ns else none
  | .range min max =>
    match (Quantity.ofFloat min).ceil?, (Quantity.ofFloat max).floor? with
    | some lo, some hi =>
      if hi < lo then some []
      else if roundNat cap ≤ roundInt (hi - lo) ∨ lo < leastInt ∨ greatestInt + 1 < hi then
        none
      else
        some (intsBetween (clampInt lo) (clampInt hi))
    | _, _ => none

inductive BindingKind where
  | boolean
  | bounded (d : Domain)
  /-- Nothing is known about the values. -/
  | opaqueValue
deriving Repr, Inhabited

/-- The property a local stands for. -/
structure Binding where
  path : String
  kind : BindingKind
deriving Repr, Inhabited

def Binding.isBoolean (b : Binding) : Bool :=
  match b.kind with
  | .boolean => true
  | _ => false

abbrev Bindings := Dict Binding

/-- The binding of a local, of a member of a local, or of a cast of either. -/
def Bindings.resolve? (bs : Bindings) : Expr → Option Binding
  | .name _ n => bs.get? n
  | .member _ (.name _ n) _ => bs.get? n
  | .cast _ _ e => resolve? bs e
  | _ => none

end PanelSchema
