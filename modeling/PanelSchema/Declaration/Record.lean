import PanelSchema.Dict
import PanelSchema.Model.Basic

/-! What a shader file declares about a property. -/

namespace PanelSchema

structure Declaration where
  identifier : String := ""
  displayName : Option String := none
  type : PropertyType := .unknown
  range : Option ValueRange := none
  default : Option PropertyDefault := none
  enumType : Option String := none
  enumLabels : List String := []
  enumNumbers : List Int := []
  toggle : Bool := false
deriving Repr, Inhabited

/-- Declarations by identifier; of several the last counts. -/
abbrev DeclarationTable := Dict Declaration

def DeclarationTable.add (t : DeclarationTable) (d : Declaration) : DeclarationTable :=
  t.insert d.identifier d

end PanelSchema
