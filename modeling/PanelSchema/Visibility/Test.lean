import PanelSchema.Catalog
import PanelSchema.Traced
import PanelSchema.Visibility.Basic
import PanelSchema.Visibility.Binding

/-!
Tests of branches as visibility. Precision is lost where a test speaks of
anything but known bindings and literals; the result then asks for less.
-/

namespace PanelSchema

open Syntax (Expr BinaryOp)

/-- A whole number within range is an integer. -/
def numberLiteral (x : Float) : RuleValue :=
  match (Quantity.ofFloat x).integer? with
  | some n => if n.natAbs < 0x8000000000000000 then .int n else .float x
  | none => .float x

/-- The number a value is compared as. -/
def RuleValue.quantity? : RuleValue → Option Quantity
  | .int n => some (.ofInt n)
  | .float x => some (.ofFloat x)
  | .bool b => some (.ofInt (if b then 1 else 0))
  | .str _ => none

/-- What tests are read against. -/
structure TestScope where
  bindings : Bindings
  catalog : Catalog
  /-- Larger domains are not enumerated. -/
  cap : Nat

namespace TestScope

/-- A literal, a negated literal, a constant or an enum member. -/
def literal? (s : TestScope) : Expr → Traced (Option RuleValue)
  | .bool _ b => pure (some (.bool b))
  | .integer _ n => pure (some (.int n))
  | .float _ x => pure (some (.float x))
  | .string _ t => pure (some (.str t))
  | .cast _ _ e => s.literal? e
  | .unary _ .minus e => do
    match ← s.literal? e with
    | some (.int n) => if n = leastInt then Traced.stop .overflow else pure (some (.int (-n)))
    | some (.float x) => pure (some (.float (-x)))
    | _ => pure none
  | e@(.name ..) | e@(.member ..) =>
    pure
      (e.dotted?.bind fun dotted =>
        match s.catalog.enumValue? dotted with
        | some n => some (.int n)
        | none =>
          match s.catalog.number? dotted with
          | some x => some (numberLiteral x)
          | none => (s.catalog.string? dotted).map .str)
  | _ => pure none

/-- One condition for each member of the domain that is kept. -/
def enumerated (s : TestScope) (path : String) (d : Domain) (keep : Int → Bool) :
    Traced Visibility := do
  match d.members? s.cap with
  | none | some [] =>
    Traced.note .debug s!"domain of {path} is empty or too large to enumerate"
    pure .always
  | some ns =>
    let kept := ns.filter keep
    if kept.isEmpty then
      Traced.note .debug s!"no value of {path} satisfies the comparison"
    pure (.ofConditions (kept.map fun n => .single path (.int n)))

/-- The opposite of a value, where it has one. -/
def inverted (path : String) (value : RuleValue) : Traced Visibility := do
  match Visibility.opposite? value with
  | some v => pure (.single path v)
  | none =>
    Traced.note .debug s!"inequality on {path} cannot be inverted; dropped"
    pure .always

/-- Integers differ from a number when they are further from it than the
spacing of floats at one. -/
def differs (excluded : Quantity) (n : Int) : Bool :=
  (Quantity.finite 1 (-52)).lt ((Quantity.ofInt n).sub excluded).abs

def notEqual (s : TestScope) (b : Binding) (value : RuleValue) : Traced Visibility :=
  match b.kind, value.quantity? with
  | .bounded d, some excluded => s.enumerated b.path d (differs excluded)
  | _, _ => inverted b.path value

def holds (op : BinaryOp) (x y : Quantity) : Bool :=
  match op with
  | .lt => x.lt y
  | .le => x.le y
  | .gt => y.lt x
  | .ge => y.le x
  | _ => false

def ordered (s : TestScope) (b : Binding) (op : BinaryOp) (value : RuleValue) :
    Traced Visibility :=
  match b.kind, value.quantity? with
  | .bounded d, some bound => s.enumerated b.path d fun n => holds op (.ofInt n) bound
  | _, _ => do
    Traced.note .debug s!"ordered comparison on unbounded binding {b.path} dropped"
    pure .always

/-- Compares a binding with an expression that should be a literal. -/
def compareWith (s : TestScope) (b : Binding) (op : BinaryOp) (other : Expr) :
    Traced Visibility := do
  match ← s.literal? other with
  | none =>
    Traced.note .debug s!"comparison of {b.path} against a non-literal dropped"
    pure .always
  | some value =>
    match op with
    | .eq => pure (.single b.path value)
    | .ne => s.notEqual b value
    | _ => s.ordered b op value

/-- Exactly one side has to be a known binding. -/
def compare (s : TestScope) (left : Expr) (op : BinaryOp) (right : Expr) :
    Traced Visibility :=
  match s.bindings.resolve? left, s.bindings.resolve? right with
  | some b, none => s.compareWith b op right
  | none, some b => s.compareWith b op.swapped left
  | _, _ => do
    Traced.note .debug "comparison without exactly one known binding dropped"
    pure .always

def negated (v : Visibility) : Traced Visibility := do
  Traced.notesOf v.negateNotes
  pure v.negate

def both (v w : Visibility) : Traced Visibility := do
  Traced.notesOf (v.andNotes w)
  pure (v.and w)

/-- A bare boolean binding asks for its being true. -/
def bare (s : TestScope) (e : Expr) : Visibility :=
  match s.bindings.resolve? e with
  | some b => if b.isBoolean then .single b.path (.bool true) else .always
  | none => .always

def visibilityOf (s : TestScope) : Expr → Traced Visibility
  | .unary _ .not e => do
    let v ← s.visibilityOf e
    negated v
  | .cast _ _ e => s.visibilityOf e
  | .binary _ l .and r => do
    let v ← s.visibilityOf l
    let w ← s.visibilityOf r
    both v w
  | .binary _ l .or r => do
    let v ← s.visibilityOf l
    let w ← s.visibilityOf r
    pure (v.or w)
  | .binary _ l op r =>
    if op = .eq ∨ op = .ne ∨ op.isOrdering then s.compare l op r else pure .always
  | e@(.name ..) | e@(.member ..) => pure (s.bare e)
  | _ => pure .always

end TestScope

end PanelSchema
