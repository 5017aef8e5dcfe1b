import PanelSchema.Dict
import PanelSchema.Note
import PanelSchema.Number.Decimal
import PanelSchema.Syntax.Tree
import PanelSchema.Text.Quoted

/-!
What a source declares: texts, numbers, captions, lists of texts, enums and
routines, each found by its bare name and by the name of its class and its own.
-/

namespace PanelSchema

open Syntax (Expr Stmt Decl Attribute EnumMember Parameter SourceTree)

structure EnumCase where
  ident : String
  /-- The name shown, which an attribute may set. -/
  label : String
  value : Int
deriving DecidableEq, Repr, Inhabited

structure EnumDef where
  name : String
  cases : List EnumCase
deriving DecidableEq, Repr, Inhabited

namespace EnumDef

def labels (e : EnumDef) : List String :=
  e.cases.map (·.label)

def values (e : EnumDef) : List Int :=
  e.cases.map (·.value)

def valueOf? (e : EnumDef) (ident : String) : Option Int :=
  (e.cases.find? (·.ident == ident)).map (·.value)

end EnumDef

/-- A label with an optional tooltip. -/
structure Caption where
  label : String
  tooltip : Option String
deriving DecidableEq, Repr, Inhabited

structure Routine where
  name : String
  params : List Parameter
  body : Stmt
deriving Inhabited

structure Catalog where
  strings : Dict String := {}
  numbers : Dict Float := {}
  captions : Dict Caption := {}
  lists : Dict (List String) := {}
  enums : Dict EnumDef := {}
  routines : Dict Routine := {}
deriving Inhabited

namespace Catalog

/-- The name itself, else the last two parts of a longer path. -/
def find? {α : Type} (d : Dict α) (name : String) : Option α :=
  match d.get? name with
  | some v => some v
  | none =>
    match (dottedParts name).reverse with
    | last :: previous :: _ :: _ => d.get? (previous ++ "." ++ last)
    | _ => none

def string? (c : Catalog) (name : String) : Option String := find? c.strings name

def number? (c : Catalog) (name : String) : Option Float := find? c.numbers name

def caption? (c : Catalog) (name : String) : Option Caption := find? c.captions name

def list? (c : Catalog) (name : String) : Option (List String) := find? c.lists name

def enum? (c : Catalog) (name : String) : Option EnumDef := find? c.enums name

def routine? (c : Catalog) (name : String) : Option Routine := find? c.routines name

/-- The value of `Type.Member`, the type being all before the last point. -/
def enumValue? (c : Catalog) (dotted : String) : Option Int :=
  match (dottedParts dotted).reverse with
  | member :: first :: rest =>
    (c.enum? (".".intercalate (first :: rest).reverse)).bind (·.valueOf? member)
  | _ => none

def isEmpty (c : Catalog) : Bool :=
  c.strings.isEmpty && c.numbers.isEmpty && c.captions.isEmpty && c.lists.isEmpty
    && c.enums.isEmpty && c.routines.isEmpty

/-- A text literal or a text constant. -/
def evalString? (c : Catalog) : Expr → Option String
  | .string _ s => some s
  | e@(.name ..) | e@(.member ..) => e.dotted?.bind c.string?
  | _ => none

/-- A number literal or constant under signs and casts; an enum member counts
as its value. -/
def evalNumber? (c : Catalog) : Expr → Option Float
  | .integer _ n => some (Float.ofInt n)
  | .float _ x => some x
  | .unary _ .minus e => (c.evalNumber? e).map (- ·)
  | .unary _ .plus e => c.evalNumber? e
  | .cast _ _ e => c.evalNumber? e
  | e@(.name ..) | e@(.member ..) =>
    e.dotted?.bind fun dotted =>
      match c.number? dotted with
      | some x => some x
      | none => (c.enumValue? dotted).map Float.ofInt
  | _ => none

/-- `new GUIContent(label, tooltip)`, each a text literal or constant. -/
def captionOf? (c : Catalog) : Expr → Option Caption
  | .new _ (some type) args _ =>
    if (dottedParts type).getLast? = some "GUIContent" then
      (args.head?.bind c.evalString?).map fun label =>
        { label, tooltip := args[1]?.bind c.evalString? }
    else
      none
  | _ => none

def literalText? : Expr → Option String
  | .string _ s => some s
  | _ => none

/-- A list of text literals. -/
def textList? : Expr → Option (List String)
  | .list _ es => es.mapM literalText?
  | .new _ _ _ (some es) => es.mapM literalText?
  | _ => none

/-- A name or member access under any unary operators and casts. -/
def isReference : Expr → Bool
  | .name .. | .member .. => true
  | .unary _ _ e => isReference e
  | .cast _ _ e => isReference e
  | _ => false

/-- The names under which a member of `owner` is found. -/
def keysFor (name : String) : Option String → List String
  | some owner => [name, owner ++ "." ++ name]
  | none => [name]

/-- An explicit value is a number or an earlier member. It passes through a
float on its way, and so does the value of that member. -/
def explicitValue? (c : Catalog) (earlier : List EnumCase) (e : Expr) : Option Int :=
  match c.evalNumber? e with
  | some x => some (floatToInt x)
  | none =>
    (e.asName?.bind fun name => earlier.find? (·.ident == name)).map fun found =>
      floatToInt (Float.ofInt found.value)

def caseLabel (m : EnumMember) : String :=
  let named := m.attributes.find? (·.isNamed "InspectorName")
  ((named.bind fun a => a.args.head?).bind literalText?).getD m.name

/-- `next` is the value of a member that has none of its own. -/
def enumCases (c : Catalog) : List EnumMember → List EnumCase → Int → List EnumCase
  | [], earlier, _ => earlier
  | m :: rest, earlier, next =>
    let value := (m.value.bind (c.explicitValue? earlier)).getD next
    enumCases c rest (earlier ++ [{ ident := m.name, label := caseLabel m, value }])
      (nextInt value)

def enumDef (c : Catalog) (name : String) (members : List EnumMember) : EnumDef :=
  { name, cases := c.enumCases members [] 0 }

/-- A constant whose number is not known yet, with the names it goes by. -/
structure Pending where
  keys : List String
  value : Expr

def addField (keys : List String) (value : Expr) (c : Catalog) (pending : List Pending) :
    Catalog × List Pending :=
  match value with
  | .string _ s => ({ c with strings := c.strings.insertAll keys s }, pending)
  | _ =>
    match c.captionOf? value with
    | some caption => ({ c with captions := c.captions.insertAll keys caption }, pending)
    | none =>
      match textList? value with
      | some items => ({ c with lists := c.lists.insertAll keys items }, pending)
      | none =>
        match c.evalNumber? value with
        | some x => ({ c with numbers := c.numbers.insertAll keys x }, pending)
        | none => (c, if isReference value then pending ++ [{ keys, value }] else pending)

mutual

/-- Of several routines of one name the first counts, of other things the
last. -/
def addDecl (owner : Option String) : Decl → Catalog × List Pending → Catalog × List Pending
  | .namespaceDecl _ _ body, s => addDecls owner body s
  | .classDecl _ _ name body, s => addDecls (some name) body s
  | .enumDecl _ _ name members, (c, pending) =>
    ({ c with enums := c.enums.insertAll (keysFor name owner) (c.enumDef name members) },
      pending)
  | .field _ _ _ _ name (some value), (c, pending) =>
    addField (keysFor name owner) value c pending
  | .field _ _ _ _ _ none, s => s
  | .method _ _ _ name params body, (c, pending) =>
    let routines :=
      (keysFor name owner).foldl (fun d key => d.insertNew key { name, params, body })
        c.routines
    ({ c with routines }, pending)

def addDecls (owner : Option String) :
    List Decl → Catalog × List Pending → Catalog × List Pending
  | [], s => s
  | d :: rest, s => addDecls owner rest (addDecl owner d s)

end

/-- Gives numbers to the constants that now have one; the others remain. -/
def resolveRound : List Pending → Catalog → Catalog × List Pending
  | [], c => (c, [])
  | p :: rest, c =>
    match c.evalNumber? p.value with
    | some x => resolveRound rest { c with numbers := c.numbers.insertAll p.keys x }
    | none =>
      let (c, remaining) := resolveRound rest c
      (c, p :: remaining)

/-- Rounds until one changes nothing. Each other one settles a constant, so as
many as there are constants suffice. -/
def resolve : Nat → Catalog → List Pending → Catalog
  | 0, c, _ => c
  | rounds + 1, c, pending =>
    let (c', remaining) := resolveRound pending c
    if remaining.length = pending.length then c' else resolve rounds c' remaining

def ofTree (t : SourceTree) : Catalog :=
  let (c, pending) := addDecls none t.body ({}, [])
  resolve pending.length c pending

def sizeNote (c : Catalog) : Note :=
  { level := .debug
    text :=
      s!"source tables: {c.strings.size} strings, {c.numbers.size} numbers, "
        ++ s!"{c.captions.size} contents, {c.lists.size} arrays, {c.enums.size} enums, "
        ++ s!"{c.routines.size} methods" }

def quotedOption : Option String → String
  | some s => "Some(" ++ quoted s ++ ")"
  | none => "None"

/-- One line an entry, kind by kind and by name within a kind. -/
def dump (c : Catalog) : String :=
  let lines {α : Type} (d : Dict α) (line : String → α → String) : List String :=
    d.sorted.map fun (k, v) => line k v ++ "\n"
  String.join
    (lines c.strings (fun k v => s!"string  {k} = {quoted v}")
      ++ lines c.numbers (fun k v => s!"number  {k} = {FloatLayout.shown.text v}")
      ++ lines c.captions (fun k v =>
        s!"content {k} = {quoted v.label} ({quotedOption v.tooltip})")
      ++ lines c.lists (fun k v => s!"array   {k} = {quotedList v}")
      ++ lines c.enums (fun k v =>
        let members := v.cases.map fun m => s!"{m.label}={m.value}"
        "enum    " ++ k ++ " = [" ++ ", ".intercalate members ++ "]")
      ++ lines c.routines (fun k v => s!"method  {k}({v.params.length} params)"))

end Catalog

end PanelSchema
