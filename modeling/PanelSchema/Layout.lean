import PanelSchema.Model.Basic
import PanelSchema.Note

/-!
The sections of one module. A section is known by its handle, the number of
sections made before it, and a property lives in one section only.
-/

namespace PanelSchema

structure SectionLayout where
  name : String
  label : String
  /-- Whether the label was given and not taken from the name. -/
  labelGiven : Bool
  parent : Option String
  depth : Nat
  order : Int
  properties : List Nat := []
deriving Repr, Inhabited, DecidableEq

structure Placement where
  /-- The handle of the section. -/
  home : Nat
  unconditional : Bool
deriving Repr, Inhabited, DecidableEq

structure Layout where
  sections : List SectionLayout := []
  nextOrder : Int := 0
  /-- Where each placed property is. -/
  placements : List (Nat × Placement) := []
deriving Repr, Inhabited

namespace Layout

def handle? (l : Layout) (name : String) : Option Nat :=
  l.sections.findIdx? (·.name == name)

def get? (l : Layout) (handle : Nat) : Option SectionLayout :=
  l.sections[handle]?

def update (l : Layout) (handle : Nat) (f : SectionLayout → SectionLayout) : Layout :=
  { l with sections := l.sections.modify handle f }

/-- The first label given to a section stays, and its order only falls. -/
def revisit (label : Option String) (order : Option Int) (s : SectionLayout) :
    SectionLayout :=
  let s :=
    match label with
    | some given => if s.labelGiven then s else { s with label := given, labelGiven := true }
    | none => s
  match order with
  | some n => { s with order := min s.order n }
  | none => s

/-- A section that does not exist yet. An unknown parent counts as none, and
only sections without an order of their own draw one from the counter. -/
def fresh (l : Layout) (name : String) (label parent : Option String) (order : Option Int) :
    SectionLayout :=
  let above := parent.bind l.handle? |>.bind l.get?
  { name
    label := label.getD name
    labelGiven := label.isSome
    parent := above.map (·.name)
    depth := (above.map (·.depth + 1)).getD 0
    order := order.getD l.nextOrder }

/-- The section of that name and its handle, made if need be. -/
def visit (l : Layout) (name : String) (label parent : Option String) (order : Option Int) :
    Layout × Nat :=
  match l.handle? name with
  | some handle => (l.update handle (revisit label order), handle)
  | none =>
    ({ l with
        sections := l.sections ++ [l.fresh name label parent order]
        nextOrder := if order.isSome then l.nextOrder else l.nextOrder + 1 },
      l.sections.length)

def visitNotes (l : Layout) (name : String) (label parent : Option String)
    (order : Option Int) : List Note :=
  match l.handle? name with
  | some _ => []
  | none =>
    let s := l.fresh name label parent order
    [{ level := .trace
       text := s!"section '{name}' created at depth {s.depth} with order {s.order}" }]

def push (l : Layout) (home property : Nat) : Layout :=
  l.update home fun s => { s with properties := s.properties ++ [property] }

def withdraw (l : Layout) (home property : Nat) : Layout :=
  l.update home fun s => { s with properties := s.properties.filter (· != property) }

def record (l : Layout) (property : Nat) (p : Placement) : Layout :=
  { l with placements := (property, p) :: l.placements.filter (·.1 != property) }

/-- Shows a property in a section. It moves, to the end of its new section,
only when the first unconditional showing follows conditional ones. -/
def place (l : Layout) (home property : Nat) (unconditional : Bool) : Layout :=
  if l.sections.length ≤ home then l
  else
    match l.placements.lookup property with
    | none => (l.push home property).record property { home, unconditional }
    | some previous =>
      if unconditional && !previous.unconditional then
        ((l.withdraw previous.home property).push home property).record property
          { home, unconditional }
      else
        l

/-- The sections by display order, those of one order as they were made. -/
def finish (l : Layout) (root : String) : List Section :=
  (l.sections.mergeSort fun a b => a.order ≤ b.order).map fun s =>
    { name := s.name
      label := s.label
      parent := s.parent
      isRoot := s.name == root && s.parent.isNone
      depth := s.depth
      order := s.order
      properties := s.properties }

end Layout

end PanelSchema
