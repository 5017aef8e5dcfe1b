import PanelSchema.Number.Decimal
import PanelSchema.Syntax.Tree
import PanelSchema.Text.Quoted

/-!
Syntax trees written out with all their parts. Every part of a record, list or
option stands on lines of its own, four blanks further in, and a node closes
with a line end of its own.
-/

namespace PanelSchema.Syntax

namespace Dump

/-- Puts four blanks before every line; `fresh` says that a line begins. -/
def indentFrom : Bool → List Char → List Char
  | _, [] => []
  | fresh, c :: rest =>
    let tail := c :: indentFrom (c == '\n') rest
    if fresh then ' ' :: ' ' :: ' ' :: ' ' :: tail else tail

/-- A part of a whole. -/
def part (s : String) : String :=
  String.ofList (indentFrom true (s ++ ",\n").toList)

def record (title : String) (fields : List (String × String)) : String :=
  title ++ " \x7b\n" ++ String.join (fields.map fun (key, value) => part (key ++ ": " ++ value))
    ++ "\x7d"

def list (items : List String) : String :=
  if items.isEmpty then "[]" else "[\n" ++ String.join (items.map part) ++ "]"

def option : Option String → String
  | some s => "Some(\n" ++ part s ++ ")"
  | none => "None"

def node (m : Mark) (kind : String) (attributes : List String) : String :=
  let attached :=
    if attributes.isEmpty then "" else "  attributes: " ++ list attributes ++ ",\n"
  s!"AstNode \x7b\n  id: {m.id},\n  kind: {kind},\n{attached}"
    ++ s!"  location: {m.span.start.text}\n  span: {m.span.text}\n\x7d\n"

end Dump

open Dump

mutual

def Expr.dump : Expr → String
  | .unary m op e =>
    node m (record "UnaryOp" [("op", op.name), ("expr", e.dump)]) []
  | .binary m l op r =>
    node m (record "BinaryOp" [("left", l.dump), ("op", op.name), ("right", r.dump)]) []
  | .assign m t v =>
    node m (record "Assignment" [("target", t.dump), ("value", v.dump)]) []
  | .conditional m c y n =>
    node m
      (record "Conditional"
        [("condition", c.dump), ("then_branch", y.dump), ("else_branch", n.dump)])
      []
  | .cast m t e =>
    node m (record "Cast" [("type_name", quoted t), ("expr", e.dump)]) []
  | .call m c ts as =>
    node m
      (record "Call"
        [("callee", c.dump), ("type_args", list (ts.map quoted)),
          ("args", list (exprDumps as))])
      []
  | .member m o n =>
    node m (record "Member" [("object", o.dump), ("property", quoted n)]) []
  | .index m o i => node m (record "Index" [("object", o.dump), ("index", i.dump)]) []
  | .new m t as none =>
    node m
      (record "New"
        [("type_name", option (t.map quoted)), ("args", list (exprDumps as)),
          ("initializer", option none)])
      []
  | .new m t as (some es) =>
    node m
      (record "New"
        [("type_name", option (t.map quoted)), ("args", list (exprDumps as)),
          ("initializer", option (some (list (exprDumps es))))])
      []
  | .typeOf m t => node m (record "TypeOf" [("type_name", quoted t)]) []
  | .name m n => node m (record "Identifier" [("name", quoted n)]) []
  | .string m v => node m (record "String" [("value", quoted v)]) []
  | .integer m v => node m (record "Integer" [("value", toString v)]) []
  | .float m v => node m (record "Float" [("value", FloatLayout.dump.text v)]) []
  | .bool m v => node m (record "Bool" [("value", if v then "true" else "false")]) []
  | .list m es => node m (record "List" [("elements", list (exprDumps es))]) []
  | .null m => node m "Null" []

def exprDumps : List Expr → List String
  | [] => []
  | e :: rest => e.dump :: exprDumps rest

end

mutual

def Stmt.dump : Stmt → String
  | .block m ss => node m (record "Block" [("statements", list (stmtDumps ss))]) []
  | .localDecl m t n v =>
    node m
      (record "LocalDecl"
        [("type_name", quoted t), ("name", quoted n), ("value", option (v.map Expr.dump))])
      []
  | .ifThen m c b => node m (record "If" [("condition", c.dump), ("body", b.dump)]) []
  | .ifElse m c y n =>
    node m
      (record "IfElse" [("condition", c.dump), ("if_body", y.dump), ("else_body", n.dump)])
      []
  | .switch m e ss =>
    node m (record "Switch" [("subject", e.dump), ("sections", list (sectionDumps ss))]) []
  | .usingBlock m r b =>
    node m (record "Using" [("resource", r.dump), ("body", b.dump)]) []
  | .whileLoop m c b => node m (record "While" [("condition", c.dump), ("body", b.dump)]) []
  | .loop m b => node m (record "For" [("body", b.dump)]) []
  | .doWhile m b c =>
    node m (record "DoWhile" [("body", b.dump), ("condition", c.dump)]) []
  | .returns m v => node m (record "Return" [("value", option (v.map Expr.dump))]) []
  | .breaks m => node m "Break" []
  | .continues m => node m "Continue" []
  | .skipped m t => node m (record "Skipped" [("text", quoted t)]) []
  | .expr e => e.dump

def stmtDumps : List Stmt → List String
  | [] => []
  | s :: rest => s.dump :: stmtDumps rest

def SwitchSection.dump : SwitchSection → String
  | .mk m ls b =>
    node m
      (record "SwitchSection"
        [("labels", list (ls.map fun l => option (l.map Expr.dump))),
          ("body", list (stmtDumps b))])
      []

def sectionDumps : List SwitchSection → List String
  | [] => []
  | s :: rest => s.dump :: sectionDumps rest

end

def Attribute.dump (a : Attribute) : String :=
  record "Attribute" [("name", quoted a.name), ("args", list (a.args.map Expr.dump))]

def Parameter.dump (p : Parameter) : String :=
  record "Parameter" [("name", quoted p.name), ("type_name", quoted p.type)]

def EnumMember.dump (e : EnumMember) : String :=
  node e.mark
    (record "EnumMember" [("name", quoted e.name), ("value", option (e.value.map Expr.dump))])
    (e.attributes.map Attribute.dump)

mutual

def Decl.dump : Decl → String
  | .namespaceDecl m n b =>
    node m (record "Namespace" [("name", quoted n), ("body", list (declDumps b))]) []
  | .classDecl m as n b =>
    node m (record "Class" [("name", quoted n), ("body", list (declDumps b))])
      (as.map Attribute.dump)
  | .enumDecl m as n ms =>
    node m (record "Enum" [("name", quoted n), ("members", list (ms.map EnumMember.dump))])
      (as.map Attribute.dump)
  | .field m as mods t n v =>
    node m
      (record "Field"
        [("name", quoted n), ("type_name", quoted t), ("modifiers", list (mods.map quoted)),
          ("value", option (v.map Expr.dump))])
      (as.map Attribute.dump)
  | .method m as r n ps b =>
    node m
      (record "Method"
        [("name", quoted n), ("return_type", quoted r),
          ("params", list (ps.map Parameter.dump)), ("body", b.dump)])
      (as.map Attribute.dump)

def declDumps : List Decl → List String
  | [] => []
  | d :: rest => d.dump :: declDumps rest

end

def SourceTree.dump (t : SourceTree) : String :=
  node t.mark (record "CompilationUnit" [("body", list (declDumps t.body))]) []

end PanelSchema.Syntax
