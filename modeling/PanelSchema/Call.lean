import PanelSchema.Model.Basic

/-! The closed vocabulary of calls the walk understands, by method name. -/

namespace PanelSchema

inductive CallShape where
  /-- Finds a property by its identifier. -/
  | propertyLookup
  /-- Starts a module. -/
  | effect
  /-- Declares a section inside the current one. -/
  | subEffect
  | indent
  | unindent
  /-- Draws a property, which may tell its type. -/
  | bind (type : PropertyType)
  /-- Adds hint texts to a property. -/
  | hint
  | unrecognized
deriving DecidableEq, Repr, Inhabited

namespace CallShape

def name : CallShape → String
  | .propertyLookup => "PropertyLookup"
  | .effect => "Effect"
  | .subEffect => "SubEffect"
  | .indent => "Indent"
  | .unindent => "Unindent"
  | .bind type => "Bind(" ++ type.name ++ ")"
  | .hint => "Hint"
  | .unrecognized => "Unrecognized"

def ofMethod : String → CallShape
  | "FindProperty" => .propertyLookup
  | "MakeEffect" => .effect
  | "MakeSubEffect" => .subEffect
  | "Indent" => .indent
  | "Unindent" => .unindent
  | "ShaderProperty" | "DefaultShaderProperty" | "PropertyField" => .bind .unknown
  | "FloatField" | "FloatProperty" | "DelayedFloatField" => .bind .float
  | "Slider" | "RangeProperty" | "MinMaxSlider" => .bind .range
  | "IntField" | "IntegerProperty" | "IntSlider" | "DelayedIntField" => .bind .int
  | "ColorField" | "ColorProperty" => .bind .color
  | "VectorField" | "VectorProperty" | "Vector2Field" | "Vector3Field" | "Vector4Field" =>
    .bind .vector
  | "TextureProperty" | "TexturePropertySingleLine" | "TexturePropertyWithHDRColor"
  | "TexturePropertyMiniThumbnail" | "TextureField" | "ObjectField" => .bind .texture
  | "Toggle" | "ToggleLeft" => .bind .toggle
  | "EnumPopup" | "EnumFlagsField" | "EnumProperty" | "Popup" | "IntPopup" => .bind .enum
  | "CurveField" => .bind .curve
  | "GradientField" => .bind .gradient
  | "Tooltip" | "Hint" => .hint
  | _ => .unrecognized

/-- Calls that end in a least and a greatest value. -/
def hasRange (method : String) : Bool :=
  ["Slider", "RangeProperty", "IntSlider", "MinMaxSlider"].contains method

/-- Popups whose labels are those of an enum. -/
def isEnumPopup (method : String) : Bool :=
  ["EnumPopup", "EnumFlagsField", "EnumProperty"].contains method

/-- Popups whose labels are a list of texts. -/
def isTextPopup (method : String) : Bool :=
  ["Popup", "IntPopup"].contains method

end CallShape

end PanelSchema
