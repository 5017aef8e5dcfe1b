/-! Paths whose parts are set apart by points. -/

namespace PanelSchema

/-- The parts of a path. There is always one. -/
def dottedParts (path : String) : List String :=
  (path.toList.splitOn '.').map String.ofList

end PanelSchema
