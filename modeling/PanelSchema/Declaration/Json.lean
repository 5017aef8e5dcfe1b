import PanelSchema.Declaration.Record
import PanelSchema.Model.Json

/-! The JSON form of declarations. -/

namespace PanelSchema

def Declaration.toJson (d : Declaration) : Json :=
  .obj <|
    [("identifier", .str d.identifier)]
      ++ Json.optField "display_name" .str d.displayName
      ++ [("type", d.type.toJson)]
      ++ Json.optField "range" ValueRange.toJson d.range
      ++ Json.optField "default" PropertyDefault.toJson d.default
      ++ Json.optField "enum_type" .str d.enumType
      ++ Json.listField "enum_labels" .str d.enumLabels
      ++ Json.listField "enum_numbers" .int d.enumNumbers
      ++ Json.flagField "toggle" d.toggle

def Declaration.decode : Decoder Declaration :=
  Decoder.record "PropertyMetadata"
    [Decoder.required "identifier" .string fun x d => { d with identifier := x },
      Decoder.optional "display_name" (.option .string) fun x d => { d with displayName := x },
      Decoder.optional "type" PropertyType.decode fun x d => { d with type := x },
      Decoder.optional "range" (.option ValueRange.decode) fun x d => { d with range := x },
      Decoder.optional "default" (.option PropertyDefault.decode)
        fun x d => { d with default := x },
      Decoder.optional "enum_type" (.option .string) fun x d => { d with enumType := x },
      Decoder.optional "enum_labels" (.list .string) fun x d => { d with enumLabels := x },
      Decoder.optional "enum_numbers" (.list .int) fun x d => { d with enumNumbers := x },
      Decoder.optional "toggle" .bool fun x d => { d with toggle := x }]
    {}

/-- By increasing identifier. -/
def DeclarationTable.toJson (t : DeclarationTable) : Json :=
  .obj (t.sorted.map fun (key, d) => (key, d.toJson))

def readDeclarations (text : String) : Except JsonFault DeclarationTable :=
  (Decoder.dict Declaration.decode).ofText text

end PanelSchema
