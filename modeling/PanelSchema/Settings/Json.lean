import PanelSchema.Json.Decode
import PanelSchema.Settings

/-! The JSON form of settings. Every field may be left out. -/

namespace PanelSchema

namespace ConditionPolicy

def name : ConditionPolicy → String
  | .lastUnconditionalWins => "last_unconditional_wins"
  | .disjunction => "disjunction"

def all : List ConditionPolicy :=
  [.lastUnconditionalWins, .disjunction]

def ofName? (name : String) : Option ConditionPolicy :=
  all.find? (·.name == name)

end ConditionPolicy

namespace Settings

def toJson (s : Settings) : Json :=
  .obj
    [("entry_point", .str s.entryPoint),
      ("metadata_pattern", .str s.declarationPattern),
      ("max_enumerated_values", .int s.maxEnumeratedValues),
      ("max_inline_depth", .int s.maxInlineDepth),
      ("condition_policy", .str s.conditionPolicy.name)]

def decode : Decoder Settings :=
  Decoder.record "ExtractorConfig"
    [Decoder.optional "entry_point" .string fun x s => { s with entryPoint := x },
      Decoder.optional "metadata_pattern" .string
        fun x s => { s with declarationPattern := x },
      Decoder.optional "max_enumerated_values" .nat
        fun x s => { s with maxEnumeratedValues := x },
      Decoder.optional "max_inline_depth" .nat fun x s => { s with maxInlineDepth := x },
      Decoder.optional "condition_policy"
        (.choice (ConditionPolicy.all.map (·.name)) ConditionPolicy.ofName?)
        fun x s => { s with conditionPolicy := x }]
    {}

/-- The settings a text holds. -/
def ofText (text : String) : Except JsonFault Settings :=
  Settings.decode.ofText text

end Settings

end PanelSchema
