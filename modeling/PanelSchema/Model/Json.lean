import PanelSchema.Json.Decode
import PanelSchema.Model.Basic

/-!
The JSON form of a model. What was not learned is left out: empty lists, absent
options and flags that are not set.
-/

namespace PanelSchema

def RuleValue.toJson : RuleValue → Json
  | .bool b => .bool b
  | .int n => .int n
  | .float x => .float x
  | .str s => .str s

/-- An integer outside the range is a float. -/
def RuleValue.decode : Decoder RuleValue := fun d => do
  match ← Decoder.sound d with
  | .bool b => .ok (.bool b)
  | .int n => .ok (if n ≤ greatestInt then .int n else .float (Decoder.nearestFloat n))
  | .float x => .ok (.float x)
  | .str s => .ok (.str s)
  | _ => .error (.noVariant "RuleValue")

def Condition.toJson (c : Condition) : Json :=
  .obj [("paths", .arr (c.paths.map .str)), ("values", .arr (c.values.map (·.toJson)))]

def Condition.decode : Decoder Condition :=
  Decoder.record "ConditionalRule"
    [Decoder.required "paths" (.list .string) fun x c => { c with paths := x },
      Decoder.required "values" (.list RuleValue.decode) fun x c => { c with values := x }]
    default

def ValueRange.toJson (r : ValueRange) : Json :=
  .obj [("min", .float r.min), ("max", .float r.max)]

def ValueRange.decode : Decoder ValueRange :=
  Decoder.record "ValueRange"
    [Decoder.required "min" .float fun x r => { r with min := x },
      Decoder.required "max" .float fun x r => { r with max := x }]
    default

/-- A color and a vector are both lists of numbers. -/
def PropertyDefault.toJson : PropertyDefault → Json
  | .int n => .int n
  | .float x => .float x
  | .color r g b a => .arr [.float r, .float g, .float b, .float a]
  | .vector xs => .arr (xs.map .float)

/-- Four numbers are a color and any other list is a vector. -/
def PropertyDefault.ofNumbers : List Float → PropertyDefault
  | [r, g, b, a] => .color r g b a
  | xs => .vector xs

def PropertyDefault.decode : Decoder PropertyDefault := fun d => do
  match ← Decoder.sound d with
  | .int n => .ok (if n ≤ greatestInt then .int n else .float (Decoder.nearestFloat n))
  | .float x => .ok (.float x)
  | .arr items _ =>
    match items.mapM Decoder.float with
    | .ok xs => .ok (ofNumbers xs)
    | .error _ => .error (.noVariant "PropertyDefault")
  | _ => .error (.noVariant "PropertyDefault")

def PropertyType.toJson (t : PropertyType) : Json :=
  .str t.name

def PropertyType.decode : Decoder PropertyType :=
  Decoder.choice (all.map name) ofName?

namespace Property

def toJson (p : Property) : Json :=
  .obj <|
    [("identifier", .str p.identifier)]
      ++ (if p.rawIdentifier.isEmpty then []
          else [("raw_identifier", .str p.rawIdentifier)])
      ++ [("name", .str p.name)]
      ++ Json.optField "display_name" .str p.displayName
      ++ [("type", p.type.toJson)]
      ++ Json.optField "range" ValueRange.toJson p.range
      ++ Json.optField "default" PropertyDefault.toJson p.default
      ++ Json.optField "enum_type" .str p.enumType
      ++ Json.listField "enum_values" .str p.enumValues
      ++ Json.flagField "toggle" p.toggle
      ++ Json.flagField "indented" p.indented
      ++ Json.listField "hints" .str p.hints
      ++ Json.listField "conditions" Condition.toJson p.conditions

def decode : Decoder Property :=
  Decoder.record "Property"
    [Decoder.required "identifier" .string fun x p => { p with identifier := x },
      Decoder.optional "raw_identifier" .string fun x p => { p with rawIdentifier := x },
      Decoder.required "name" .string fun x p => { p with name := x },
      Decoder.optional "display_name" (.option .string) fun x p => { p with displayName := x },
      Decoder.optional "type" PropertyType.decode fun x p => { p with type := x },
      Decoder.optional "range" (.option ValueRange.decode) fun x p => { p with range := x },
      Decoder.optional "default" (.option PropertyDefault.decode)
        fun x p => { p with default := x },
      Decoder.optional "enum_type" (.option .string) fun x p => { p with enumType := x },
      Decoder.optional "enum_values" (.list .string) fun x p => { p with enumValues := x },
      Decoder.optional "toggle" .bool fun x p => { p with toggle := x },
      Decoder.optional "indented" .bool fun x p => { p with indented := x },
      Decoder.optional "hints" (.list .string) fun x p => { p with hints := x },
      Decoder.optional "conditions" (.list Condition.decode)
        fun x p => { p with conditions := x }]
    { identifier := "", name := "" }

end Property

namespace Section

def toJson (s : Section) : Json :=
  .obj <|
    [("name", .str s.name), ("label", .str s.label)]
      ++ Json.optField "parent" .str s.parent
      ++ [("is_root", .bool s.isRoot), ("depth", .int s.depth), ("order", .int s.order),
        ("properties", .arr (s.properties.map fun (i : Nat) => .int i))]

def decode : Decoder Section :=
  Decoder.record "Section"
    [Decoder.required "name" .string fun x s => { s with name := x },
      Decoder.required "label" .string fun x s => { s with label := x },
      Decoder.optional "parent" (.option .string) fun x s => { s with parent := x },
      Decoder.optional "is_root" .bool fun x s => { s with isRoot := x },
      Decoder.required "depth" .nat fun x s => { s with depth := x },
      Decoder.required "order" .int fun x s => { s with order := x },
      Decoder.optional "properties" (.list .nat) fun x s => { s with properties := x }]
    { name := "", label := "", depth := 0, order := 0 }

end Section

namespace Module

def toJson (m : Module) : Json :=
  .obj <|
    [("name", .str m.name)]
      ++ Json.optField "keyword" .str m.keyword
      ++ Json.optField "secondary_keyword" .str m.secondaryKeyword
      ++ [("sections", .arr (m.sections.map (·.toJson))),
        ("properties", .arr (m.properties.map (·.toJson)))]

def decode : Decoder Module :=
  Decoder.record "Module"
    [Decoder.required "name" .string fun x m => { m with name := x },
      Decoder.optional "keyword" (.option .string) fun x m => { m with keyword := x },
      Decoder.optional "secondary_keyword" (.option .string)
        fun x m => { m with secondaryKeyword := x },
      Decoder.required "sections" (.list Section.decode) fun x m => { m with sections := x },
      Decoder.required "properties" (.list Property.decode)
        fun x m => { m with properties := x }]
    { name := "", sections := [], properties := [] }

end Module

/-- The JSON form of the modules of a source. -/
def modulesJson (ms : List Module) : Json :=
  .arr (ms.map (·.toJson))

def readModules (text : String) : Except JsonFault (List Module) :=
  (Decoder.list Module.decode).ofText text

end PanelSchema
