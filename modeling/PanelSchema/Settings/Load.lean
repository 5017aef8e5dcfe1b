import PanelSchema.Files.Tree
import PanelSchema.Settings.Json
import PanelSchema.Traced

/-! Settings from a file. -/

namespace PanelSchema

def Settings.load (fs : Files) (path : String) : Traced Settings :=
  match fs.readText path with
  | .error f => Traced.fail (.settings s!"read config: {f.reason}" path)
  | .ok text =>
    match Settings.ofText text with
    | .error f => Traced.fail (.settings s!"parse config: {f.message}" path)
    | .ok settings => do
      Traced.note .debug s!"loaded configuration from {path}"
      pure settings

end PanelSchema
