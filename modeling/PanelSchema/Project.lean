import PanelSchema.Declaration.Scan
import PanelSchema.Extract
import PanelSchema.SourceFile

/-! The modules of a source file and a folder of declarations. -/

namespace PanelSchema

def extractPath (fs : Files) (path : String) (folder : Option String) (settings : Settings) :
    Traced (List Module) := do
  let source ← SourceFile.load fs path
  let table ←
    match folder with
    | some dir => do
      let s ← Scan.ofFolder fs dir settings.declarationPattern
      pure s.table
    | none => pure {}
  extractSource source.name source.content table settings

end PanelSchema
