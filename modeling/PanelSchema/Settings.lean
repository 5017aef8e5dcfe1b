import PanelSchema.Roster

/-! Settings of an extraction. -/

namespace PanelSchema

structure Settings where
  /-- The routine the walk starts from. -/
  entryPoint : String := "OnGUI"
  /-- Which files of a directory hold property declarations. -/
  declarationPattern : String := "**/*.shader"
  /-- Larger domains are not enumerated in conditions. -/
  maxEnumeratedValues : Nat := 64
  maxInlineDepth : Nat := 8
  conditionPolicy : ConditionPolicy := .lastUnconditionalWins
deriving DecidableEq, Repr, Inhabited

end PanelSchema
