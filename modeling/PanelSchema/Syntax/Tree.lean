import PanelSchema.Text.Dotted
import PanelSchema.Text.Location

/-! The syntax tree of an editor source. -/

namespace PanelSchema.Syntax

/-- The number and place of a node. Nodes are numbered in the order in which
they are built, parts before the whole. -/
structure Mark where
  id : Nat
  span : Span
deriving DecidableEq, Repr, Inhabited

inductive BinaryOp where
  | eq
  | ne
  | lt
  | le
  | gt
  | ge
  | add
  | sub
  | mul
  | div
  | mod
  | and
  | or
  | bitAnd
  | bitOr
  | bitXor
  | coalesce
deriving DecidableEq, Repr, Inhabited

namespace BinaryOp

def name : BinaryOp → String
  | .eq => "Eq"
  | .ne => "Ne"
  | .lt => "Lt"
  | .le => "Le"
  | .gt => "Gt"
  | .ge => "Ge"
  | .add => "Add"
  | .sub => "Sub"
  | .mul => "Mul"
  | .div => "Div"
  | .mod => "Mod"
  | .and => "And"
  | .or => "Or"
  | .bitAnd => "BitAnd"
  | .bitOr => "BitOr"
  | .bitXor => "BitXor"
  | .coalesce => "Coalesce"

/-- The operator a token is, once the comparisons that end in an equals sign
are set apart. -/
private def ofStem? : List Char → Option BinaryOp
  | ['<'] => some .lt
  | ['>'] => some .gt
  | ['+'] => some .add
  | ['-'] => some .sub
  | ['*'] => some .mul
  | ['/'] => some .div
  | ['%'] => some .mod
  | ['&', '&'] => some .and
  | ['|', '|'] => some .or
  | ['&'] => some .bitAnd
  | ['|'] => some .bitOr
  | ['^'] => some .bitXor
  | ['?', '?'] => some .coalesce
  | _ => none

/-- A binary operator, or the operator of a compound assignment: any equals
signs behind an operator are dropped. -/
def ofToken? (token : List Char) : Option BinaryOp :=
  match token with
  | ['=', '='] => some .eq
  | ['!', '='] => some .ne
  | ['<', '='] => some .le
  | ['>', '='] => some .ge
  | _ => ofStem? (token.reverse.dropWhile (· == '=')).reverse

def isOrdering : BinaryOp → Bool
  | .lt | .le | .gt | .ge => true
  | _ => false

/-- The comparison seen from its other side. -/
def swapped : BinaryOp → BinaryOp
  | .lt => .gt
  | .le => .ge
  | .gt => .lt
  | .ge => .le
  | op => op

@[simp] theorem swapped_swapped (op : BinaryOp) : op.swapped.swapped = op := by
  cases op <;> rfl

end BinaryOp

inductive UnaryOp where
  | inc
  | dec
  | plus
  | minus
  | not
  | bitNot
deriving DecidableEq, Repr, Inhabited

def UnaryOp.name : UnaryOp → String
  | .inc => "Inc"
  | .dec => "Dec"
  | .plus => "Plus"
  | .minus => "Minus"
  | .not => "Not"
  | .bitNot => "BitNot"

inductive Expr where
  | unary (m : Mark) (op : UnaryOp) (operand : Expr)
  | binary (m : Mark) (left : Expr) (op : BinaryOp) (right : Expr)
  | assign (m : Mark) (target value : Expr)
  | conditional (m : Mark) (test yes no : Expr)
  | cast (m : Mark) (type : String) (operand : Expr)
  | call (m : Mark) (callee : Expr) (typeArgs : List String) (args : List Expr)
  | member (m : Mark) (object : Expr) (name : String)
  | index (m : Mark) (object index : Expr)
  | new (m : Mark) (type : Option String) (args : List Expr)
      (initializer : Option (List Expr))
  | typeOf (m : Mark) (type : String)
  | name (m : Mark) (name : String)
  | string (m : Mark) (value : String)
  | integer (m : Mark) (value : Int)
  | float (m : Mark) (value : Float)
  | bool (m : Mark) (value : Bool)
  | list (m : Mark) (elements : List Expr)
  | null (m : Mark)
deriving Inhabited

namespace Expr

def mark : Expr → Mark
  | .unary m .. | .binary m .. | .assign m .. | .conditional m .. | .cast m ..
  | .call m .. | .member m .. | .index m .. | .new m .. | .typeOf m .. | .name m ..
  | .string m .. | .integer m .. | .float m .. | .bool m .. | .list m .. | .null m => m

def asName? : Expr → Option String
  | .name _ n => some n
  | _ => none

/-- The path of a chain of member accesses that starts with a name. -/
def dotted? : Expr → Option String
  | .name _ n => some n
  | .member _ object n => object.dotted?.map (· ++ "." ++ n)
  | _ => none

/-- The last part of a name or member access. -/
def finalName? : Expr → Option String
  | .name _ n => some n
  | .member _ _ n => some n
  | _ => none

end Expr

mutual

inductive Stmt where
  | block (m : Mark) (body : List Stmt)
  | localDecl (m : Mark) (type name : String) (value : Option Expr)
  | ifThen (m : Mark) (test : Expr) (body : Stmt)
  | ifElse (m : Mark) (test : Expr) (yes no : Stmt)
  | switch (m : Mark) (subject : Expr) (sections : List SwitchSection)
  /-- The resource is a declaration or an expression. -/
  | usingBlock (m : Mark) (resource body : Stmt)
  | whileLoop (m : Mark) (test : Expr) (body : Stmt)
  /-- Any loop whose header is not kept. -/
  | loop (m : Mark) (body : Stmt)
  | doWhile (m : Mark) (body : Stmt) (test : Expr)
  | returns (m : Mark) (value : Option Expr)
  | breaks (m : Mark)
  | continues (m : Mark)
  | skipped (m : Mark) (text : String)
  | expr (e : Expr)

/-- A label without an expression is the default one. -/
inductive SwitchSection where
  | mk (m : Mark) (labels : List (Option Expr)) (body : List Stmt)

end

instance : Inhabited Stmt := ⟨.expr default⟩

instance : Inhabited SwitchSection := ⟨.mk default [] []⟩

structure Attribute where
  name : String
  args : List Expr
deriving Inhabited

/-- Whether an attribute goes by `asked`, whatever its namespace and with or
without the ending `Attribute`. -/
def Attribute.goesBy (name asked : String) : Bool :=
  let short := (dottedParts name).getLastD name
  short == asked || short == asked ++ "Attribute"

def Attribute.isNamed (a : Attribute) (asked : String) : Bool :=
  goesBy a.name asked

structure Parameter where
  type : String
  name : String
deriving DecidableEq, Repr, Inhabited

structure EnumMember where
  mark : Mark
  attributes : List Attribute
  name : String
  value : Option Expr
deriving Inhabited

inductive Decl where
  | namespaceDecl (m : Mark) (name : String) (body : List Decl)
  | classDecl (m : Mark) (attributes : List Attribute) (name : String) (body : List Decl)
  | enumDecl (m : Mark) (attributes : List Attribute) (name : String)
      (members : List EnumMember)
  | field (m : Mark) (attributes : List Attribute) (modifiers : List String)
      (type name : String) (value : Option Expr)
  | method (m : Mark) (attributes : List Attribute) (returnType name : String)
      (params : List Parameter) (body : Stmt)
deriving Inhabited

/-- A whole source. -/
structure SourceTree where
  mark : Mark
  body : List Decl
deriving Inhabited

end PanelSchema.Syntax
