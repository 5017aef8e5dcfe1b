import PanelSchema.Files.Pattern
import PanelSchema.Files.Tree

/-! The files whose paths a pattern matches. -/

namespace PanelSchema

/-- A place with the path that led to it. -/
structure Spot where
  path : String
  place : Place

namespace Files

/-- Going on from the dot leaves no trace in the path. -/
def extend (path name : String) : String :=
  if Path.isHere path then name else Path.join path name

/-- What is in a folder, by name. The working folder is seen from inside only. -/
def children (fs : Files) (s : Spot) : List Spot :=
  let entries := ((fs.at? s.place).map FileNode.entries).getD []
  let names := (entries.map (·.1)).filter (!·.isEmpty)
  (names.mergeSort fun a b => a ≤ b).map fun name =>
    { path := extend s.path name, place := s.place ++ [name] }

/-- The place a path leads to, if it leads to one. -/
def spot? (fs : Files) (path : String) : Option Spot :=
  (fs.resolve path).toOption.map fun place => { path, place }

/-- Tries everything below a folder, a folder before what is in it. -/
def below (fs : Files) (visit : Spot → List Spot) : Nat → Spot → List Spot
  | 0, _ => []
  | depth + 1, s => (fs.children s).flatMap fun c => visit c ++ below fs visit depth c

/-- The folder itself and its parent, for a pattern that starts with a dot and
fits their names. They are the first to be visited, the parent before. -/
def dotSpots (fs : Files) (p : Pattern) (s : Spot) : List Spot :=
  if p.head? == some (.char '.') then
    (["..", "."].filter p.matchesName).filterMap fun name => fs.spot? (Path.join s.path name)
  else []

/-- What the patterns of the parts of a path match from a folder on. With
`folders` only folders count. -/
def expand (fs : Files) (folders : Bool) : List Pattern → Spot → List Spot
  | [], _ => []
  | p :: rest, s =>
    let found (c : Spot) : List Spot :=
      if folders && !fs.isFolderAt c.place then [] else [c]
    let goOn (c : Spot) : List Spot :=
      match rest with
      | [] => found c
      | _ :: _ => expand fs folders rest c
    match p.literal? with
    | some name => ((fs.spot? (extend s.path name)).map goOn).getD []
    | none =>
      if p.isAnyParts then
        let visit (c : Spot) : List Spot :=
          match rest with
          | [] => if fs.isFolderAt c.place then [c] else []
          | q :: more =>
            if q.matchesName (c.place.getLast?.getD "") then
              match more with
              | [] => found c
              | _ :: _ => expand fs folders more c
            else []
        fs.below visit (fs.top.depth + 1) s
      else
        (fs.dotSpots p s).flatMap goOn
          ++ ((fs.children s).filter fun c => p.matchesName (c.place.getLast?.getD "")).flatMap
            goOn

/-- Several parts that each stand for any number of parts are as good as one. -/
def mergeAnyParts : List Pattern → List Pattern
  | p :: q :: rest =>
    if p.isAnyParts && q.isAnyParts then mergeAnyParts (q :: rest)
    else p :: mergeAnyParts (q :: rest)
  | ps => ps

/-- The texts between the slashes, where nothing stands behind a last slash. -/
def slashParts (s : String) : List String :=
  let parts := s.splitOn "/"
  if parts.getLast? = some "" then parts.dropLast else parts

/-- A pattern has to be right as a whole and then part by part, where the
position of a fault counts from the start of its part. -/
def search (fs : Files) (pattern : String) : Except PatternFault (List Spot) := do
  let _ ← Pattern.read pattern
  let absolute := Path.isAbsolute pattern
  let body := if absolute then String.ofList (pattern.toList.drop 1) else pattern
  let parts := if body.isEmpty then [""] else slashParts body
  let patterns ← parts.mapM Pattern.read
  let start : Spot :=
    if absolute then { path := "/", place := [] } else { path := ".", place := workingPlace }
  .ok (fs.expand (Path.endsInSlash pattern) (mergeAnyParts patterns) start)

end Files

end PanelSchema
