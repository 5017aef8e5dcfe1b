import PanelSchema.Files.Tree
import PanelSchema.Text.Blank
import PanelSchema.Traced

/-! Editor sources. -/

namespace PanelSchema

structure SourceFile where
  name : String
  path : String
  content : String
deriving DecidableEq, Repr

namespace SourceFile

def ofText (name content : String) : SourceFile :=
  { name, path := name, content }

def load (fs : Files) (path : String) : Traced SourceFile :=
  match fs.readText path with
  | .error f => Traced.fail (.missingSource path f.reason)
  | .ok content => do
    Traced.note .debug s!"loaded {path} ({content.utf8ByteSize} bytes)"
    pure { name := (Path.fileName? path).getD "", path, content }

def isEmpty (s : SourceFile) : Bool :=
  s.content.toList.all isBlank

def text (s : SourceFile) : String :=
  s!"Source: {s.name} at {quoted s.path}"

end SourceFile

end PanelSchema
