import PanelSchema.Declaration.Record
import PanelSchema.Visibility.Basic

/-!
The properties of one module. A draft is what is known about a property held
in a local; every showing of a draft is merged into the one property of its
identifier, where a field that is filled stays as it is.
-/

namespace PanelSchema

/-- What an unconditional showing does to the conditions of a property. -/
inductive ConditionPolicy where
  /-- It clears those collected so far. -/
  | lastUnconditionalWins
  /-- It clears all, whenever it comes. -/
  | disjunction
deriving DecidableEq, Repr, Inhabited

structure Draft where
  identifier : String
  rawIdentifier : String := ""
  displayName : Option String := none
  type : PropertyType := .unknown
  range : Option ValueRange := none
  default : Option PropertyDefault := none
  enumType : Option String := none
  enumValues : List String := []
  /-- The numbers behind `enumValues`. -/
  enumNumbers : List Int := []
  toggle : Bool := false
  indented : Bool := false
  hints : List String := []
deriving Repr, Inhabited

/-- A known type stays, except that anything may become a range. -/
def PropertyType.join (old new : PropertyType) : PropertyType :=
  if !new.isUnknown && (old.isUnknown || new == .range) then new else old

/-- Adds a hint that is not there yet. -/
def addHint (hints : List String) (hint : String) : List String :=
  if hints.contains hint then hints else hints ++ [hint]

/-- Adds a hint that is not empty and not there yet. -/
def addGivenHint (hints : List String) (hint : String) : List String :=
  if hint.isEmpty then hints else addHint hints hint

namespace Draft

def applyType (d : Draft) (type : PropertyType) : Draft :=
  { d with type := d.type.join type, toggle := d.toggle || type == .toggle }

/-- Takes what a declaration says into the fields that are still empty. -/
def enrich (d : Draft) (m : Declaration) : Draft :=
  let typed := d.applyType m.type
  { typed with
    displayName := d.displayName <|> m.displayName
    range := d.range <|> m.range
    default := d.default <|> m.default
    enumType := d.enumType <|> m.enumType
    enumValues := if d.enumValues.isEmpty then m.enumLabels else d.enumValues
    enumNumbers := if d.enumValues.isEmpty then m.enumNumbers else d.enumNumbers
    toggle := typed.toggle || m.toggle }

def hint (d : Draft) (text : String) : Draft :=
  { d with hints := addGivenHint d.hints text }

def toProperty (d : Draft) : Property :=
  { identifier := d.identifier
    rawIdentifier := d.rawIdentifier
    name := displayKey d.identifier
    displayName := d.displayName
    type := d.type
    range := d.range
    default := d.default
    enumType := d.enumType
    enumValues := d.enumValues
    toggle := d.toggle
    indented := d.indented
    hints := d.hints }

end Draft

def Property.absorb (p : Property) (d : Draft) : Property :=
  { p with
    displayName := p.displayName <|> d.displayName
    type := p.type.join d.type
    range := p.range <|> d.range
    default := p.default <|> d.default
    enumType := p.enumType <|> d.enumType
    enumValues := if p.enumValues.isEmpty then d.enumValues else p.enumValues
    rawIdentifier := if p.rawIdentifier.isEmpty then d.rawIdentifier else p.rawIdentifier
    toggle := p.toggle || d.toggle
    indented := p.indented || d.indented
    hints := d.hints.foldl addHint p.hints }

/-- Adds the conditions that are not there yet. -/
def Property.showUnder (p : Property) (v : Visibility) : Property :=
  { p with
    conditions :=
      v.conditions.foldl (fun cs c => if cs.contains c then cs else cs ++ [c]) p.conditions }

structure Roster where
  policy : ConditionPolicy := .lastUnconditionalWins
  properties : List Property := []
  /-- Properties to be shown always, under the policy that defers that. -/
  seenAlways : List Nat := []
deriving Repr, Inhabited

namespace Roster

def index? (r : Roster) (identifier : String) : Option Nat :=
  r.properties.findIdx? (·.identifier == identifier)

def get? (r : Roster) (identifier : String) : Option Property :=
  r.properties.find? (·.identifier == identifier)

def update (r : Roster) (i : Nat) (f : Property → Property) : Roster :=
  { r with properties := r.properties.modify i f }

/-- The property of the draft, made or merged, and its place. -/
def enter (r : Roster) (d : Draft) : Roster × Nat :=
  match r.index? d.identifier with
  | some i => (r.update i (·.absorb d), i)
  | none => ({ r with properties := r.properties ++ [d.toProperty] }, r.properties.length)

def showAt (r : Roster) (i : Nat) (v : Visibility) : Roster :=
  if v.isAlways then
    match r.policy with
    | .lastUnconditionalWins => r.update i fun p => { p with conditions := [] }
    | .disjunction =>
      if r.seenAlways.contains i then r else { r with seenAlways := i :: r.seenAlways }
  else
    r.update i (·.showUnder v)

/-- Shows a draft. One without an identifier is passed over. -/
def attach (r : Roster) (d : Draft) (v : Visibility) : Roster × Option Nat :=
  if d.identifier.isEmpty then (r, none)
  else
    let (r, i) := r.enter d
    (r.showAt i v, some i)

def attachNotes (d : Draft) : List Note :=
  if d.identifier.isEmpty then
    [{ level := .debug, text := "skipping property without a stable identifier" }]
  else
    []

/-- Adds a hint to a property that was shown. -/
def hint (r : Roster) (identifier text : String) : Roster :=
  match r.index? identifier with
  | some i => r.update i fun p => { p with hints := addGivenHint p.hints text }
  | none => r

def finish (r : Roster) : List Property :=
  r.properties.mapIdx fun i p =>
    if r.seenAlways.contains i then { p with conditions := [] } else p

end Roster

end PanelSchema
