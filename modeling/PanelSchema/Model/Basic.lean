import PanelSchema.Number.Decimal

/-!
The model of an editor: modules hold sections and properties, and a property
carries the conditions under which it is shown.
-/

namespace PanelSchema

inductive PropertyType where
  | float
  | range
  | int
  | color
  | vector
  | texture
  | enum
  | toggle
  | curve
  | gradient
  | unknown
deriving DecidableEq, Repr, Inhabited

namespace PropertyType

def name : PropertyType → String
  | .float => "Float"
  | .range => "Range"
  | .int => "Int"
  | .color => "Color"
  | .vector => "Vector"
  | .texture => "Texture"
  | .enum => "Enum"
  | .toggle => "Toggle"
  | .curve => "Curve"
  | .gradient => "Gradient"
  | .unknown => "Unknown"

def all : List PropertyType :=
  [.float, .range, .int, .color, .vector, .texture, .enum, .toggle, .curve, .gradient,
    .unknown]

def ofName? (name : String) : Option PropertyType :=
  all.find? (·.name == name)

def isUnknown (t : PropertyType) : Bool :=
  t == .unknown

end PropertyType

/-- A literal that a binding is compared with. -/
inductive RuleValue where
  | bool (b : Bool)
  | int (n : Int)
  | float (x : Float)
  | str (s : String)
deriving Repr, Inhabited

namespace RuleValue

/-- Floats are equal as numbers: zero equals minus zero, and no float that is
not a number equals anything. -/
def same : RuleValue → RuleValue → Bool
  | .bool a, .bool b => a == b
  | .int a, .int b => a == b
  | .float a, .float b => a == b
  | .str a, .str b => a == b
  | _, _ => false

instance : BEq RuleValue := ⟨same⟩

def text : RuleValue → String
  | .bool b => if b then "true" else "false"
  | .int n => toString n
  | .float x => FloatLayout.shown.text x
  | .str s => "\"" ++ s ++ "\""

end RuleValue

/-- All of `paths[i] == values[i]`. -/
structure Condition where
  paths : List String
  values : List RuleValue
deriving Repr, BEq, Inhabited

namespace Condition

def single (path : String) (value : RuleValue) : Condition :=
  { paths := [path], values := [value] }

/-- A path without a value, or a value without a path, is no term. -/
def terms (c : Condition) : List (String × RuleValue) :=
  c.paths.zip c.values

def text (c : Condition) : String :=
  let term (t : String × RuleValue) : String := t.1 ++ "==" ++ t.2.text
  "\x7b" ++ " && ".intercalate (c.terms.map term) ++ "\x7d"

end Condition

structure ValueRange where
  min : Float
  max : Float
deriving Repr, BEq, Inhabited

inductive PropertyDefault where
  | int (n : Int)
  | float (x : Float)
  | color (r g b a : Float)
  | vector (xs : List Float)
deriving Repr, Inhabited

structure Property where
  /-- The name under which the property is stored. -/
  identifier : String
  /-- The source text that gave the identifier. -/
  rawIdentifier : String := ""
  name : String
  displayName : Option String := none
  type : PropertyType := .unknown
  range : Option ValueRange := none
  default : Option PropertyDefault := none
  enumType : Option String := none
  enumValues : List String := []
  toggle : Bool := false
  indented : Bool := false
  hints : List String := []
  conditions : List Condition := []
deriving Repr, Inhabited

/-- The identifier without one leading underscore. -/
def displayKey (identifier : String) : String :=
  match identifier.toList with
  | '_' :: rest => String.ofList rest
  | _ => identifier

structure Section where
  name : String
  label : String
  parent : Option String := none
  isRoot : Bool := false
  depth : Nat
  order : Int
  /-- Places in the list of properties of the module. -/
  properties : List Nat := []
deriving Repr, Inhabited, DecidableEq

structure Module where
  name : String
  keyword : Option String := none
  secondaryKeyword : Option String := none
  sections : List Section
  properties : List Property
deriving Repr, Inhabited

namespace Module

def section? (m : Module) (name : String) : Option Section :=
  m.sections.find? (·.name == name)

def property? (m : Module) (identifier : String) : Option Property :=
  m.properties.find? (·.identifier == identifier)

/-- The properties of a section in display order. -/
def propertiesOf (m : Module) (s : Section) : List Property :=
  s.properties.filterMap (m.properties[·]?)

end Module

end PanelSchema
