import PanelSchema.Call
import PanelSchema.Catalog
import PanelSchema.Layout
import PanelSchema.Roster
import PanelSchema.Settings
import PanelSchema.Visibility.Test

/-!
What a walk knows. Branch-local knowledge is in a `Frame`, which each branch
gets for itself; what is learned about modules, properties and locals is in
`Walk`, which every later statement sees.
-/

namespace PanelSchema

open Syntax (Expr)

/-- What is fixed during a walk. -/
structure Setting where
  catalog : Catalog := {}
  declarations : DeclarationTable := {}
  settings : Settings := {}

structure Frame where
  /-- The handle of the current section. -/
  home : Nat := 0
  visibility : Visibility := .always
  /-- The depth of indentation. -/
  depth : Int := 0
  /-- The number of modules started when the frame was made. -/
  generation : Nat := 0
deriving Inhabited

def Frame.indentBy (f : Frame) (n : Int) : Frame :=
  { f with depth := clampInt (f.depth + n) }

/-- A module under construction. -/
structure ModuleDraft where
  name : String
  keyword : Option String
  secondaryKeyword : Option String
  /-- The handle of the section that stands for the module itself. -/
  root : Nat
  layout : Layout
  roster : Roster
deriving Inhabited

def ModuleDraft.finish (m : ModuleDraft) : Module :=
  { name := m.name
    keyword := m.keyword
    secondaryKeyword := m.secondaryKeyword
    sections := m.layout.finish m.name
    properties := m.roster.finish }

/-- The locals known before the first module starts. -/
structure Preamble where
  drafts : Dict Draft
  bindings : Bindings

structure Walk where
  modules : List Module := []
  current : Option ModuleDraft := none
  generation : Nat := 0
  /-- Locals that hold a property. -/
  drafts : Dict Draft := {}
  /-- Locals whose value is that of a property. -/
  bindings : Bindings := {}
  /-- Locals that open a section. -/
  toggles : Dict String := {}
  /-- Locals that hold a text. -/
  strings : Dict String := {}
  preamble : Option Preamble := none

abbrev WalkM := StateT Walk Traced

namespace WalkM

def note (level : NoteLevel) (text : String) : WalkM Unit :=
  StateT.lift (Traced.note level text)

def notes (ns : List Note) : WalkM Unit :=
  StateT.lift (Traced.notesOf ns)

end WalkM

/-- Where the value of an expression goes. -/
inductive Target where
  | named (name : String)
  | place (e : Expr)
  | discard

/-- The local a value goes to, if it goes to one. -/
def Target.name? : Target → Option String
  | .named n => some n
  | .place (.name _ n) => some n
  | .place (.member _ (.name _ "this") n) => some n
  | _ => none

namespace Walk

/-- A frame from before the current module started speaks of sections that are
gone; it becomes a frame at the root of the current one. -/
def normalize (w : Walk) (f : Frame) : Frame :=
  if f.generation = w.generation then f
  else
    { home := (w.current.map (·.root)).getD 0
      visibility := .always
      depth := f.depth
      generation := w.generation }

/-- The text an expression stands for. A local that holds one comes first. -/
def string? (c : Catalog) (w : Walk) (e : Expr) : Option String :=
  match e.asName?.bind w.strings.get? with
  | some s => some s
  | none => c.evalString? e

/-- The local that holds a property, under member accesses, casts and binary
operators. -/
def draftLocal? (w : Walk) : Expr → Option String
  | .name _ n => if w.drafts.contains n then some n else none
  | .member _ (.name _ "this") n => if w.drafts.contains n then some n else none
  | .member _ object _ => w.draftLocal? object
  | .cast _ _ e => w.draftLocal? e
  | .binary _ l _ r =>
    match w.draftLocal? l with
    | some n => some n
    | none => w.draftLocal? r
  | _ => none

/-- The label an argument gives, with its tooltip. -/
def caption? (c : Catalog) (w : Walk) : Expr → Option Caption
  | .string _ s => some { label := s, tooltip := none }
  | e@(.new ..) => c.captionOf? e
  | .call _ callee _ args =>
    match callee.finalName? with
    | some "TrTextContent" | some "TrTempContent" | some "TempContent" =>
      (args.head?.bind (w.string? c)).map fun label =>
        { label, tooltip := args[1]?.bind (w.string? c) }
    | _ => none
  | e@(.name ..) | e@(.member ..) =>
    match w.string? c e with
    | some s => some { label := s, tooltip := none }
    | none => e.dotted?.bind c.caption?
  | _ => none

/-- The list of texts an argument stands for. -/
def textList? (c : Catalog) : Expr → Option (List String)
  | e@(.name ..) | e@(.member ..) => e.dotted?.bind c.list?
  | e => Catalog.textList? e

def scope (s : Setting) (w : Walk) : TestScope :=
  { bindings := w.bindings, catalog := s.catalog, cap := s.settings.maxEnumeratedValues }

end Walk

/-- The binding a local with this property stands for. -/
def Draft.binding (d : Draft) : Binding :=
  let kind : BindingKind :=
    if d.toggle || d.type == .toggle then .boolean
    else if !d.enumNumbers.isEmpty then .bounded (.values d.enumNumbers)
    else
      match d.range with
      | some r => .bounded (.range r.min r.max)
      | none => .opaqueValue
  { path := d.identifier, kind }

/-- Whether an expression is the editor's own indentation. -/
def isIndentLevel (e : Expr) : Bool :=
  e.finalName? == some "indentLevel"

mutual

/-- The names in an expression, from left to right, also those at the root of
member accesses. -/
def namesIn : Expr → List String
  | .name _ n => [n]
  | .member _ object _ => namesIn object
  | .unary _ _ e => namesIn e
  | .cast _ _ e => namesIn e
  | .binary _ l _ r => namesIn l ++ namesIn r
  | .call _ callee _ args => namesIn callee ++ namesInAll args
  | .conditional _ c y n => namesIn c ++ namesIn y ++ namesIn n
  | _ => []

def namesInAll : List Expr → List String
  | [] => []
  | e :: rest => namesIn e ++ namesInAll rest

end

end PanelSchema
