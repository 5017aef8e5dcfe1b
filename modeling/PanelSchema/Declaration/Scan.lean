import PanelSchema.Declaration.Line
import PanelSchema.Files.Search
import PanelSchema.Traced

/-! The declarations in the files of a folder. -/

namespace PanelSchema

/-- The files in a folder that match a pattern, in the order of their paths. -/
def declarationFiles (fs : Files) (folder pattern : String) : Traced (List String) :=
  match fs.search (Path.join folder pattern) with
  | .error f =>
    Traced.fail (.declarations s!"invalid metadata pattern '{pattern}': {f.message}" folder)
  | .ok spots =>
    let paths := (spots.filter fun s => fs.isFileAt s.place).map (·.path)
    pure (paths.mergeSort Path.le)

/-- What a scan has found, and how many files it could read. -/
structure Scan where
  table : DeclarationTable := {}
  filesRead : Nat := 0

namespace Scan

/-- A file that cannot be read is passed over. -/
def addFile (fs : Files) (s : Scan) (path : String) : Traced Scan :=
  match fs.readText path with
  | .error f => do
    Traced.note .warn s!"cannot read metadata file {path}: {f.reason}"
    pure s
  | .ok text => do
    let (table, found) := s.table.scan text
    Traced.note .debug s!"{path}: {found} property declarations"
    pure { table, filesRead := s.filesRead + 1 }

def ofFiles (fs : Files) (paths : List String) : Traced Scan :=
  paths.foldlM (addFile fs) {}

def ofFolder (fs : Files) (folder pattern : String) : Traced Scan := do
  let paths ← declarationFiles fs folder pattern
  let s ← ofFiles fs paths
  Traced.note .info
    s!"metadata scan of {folder}: {paths.length} files, {s.table.size} properties"
  pure s

end Scan

end PanelSchema
