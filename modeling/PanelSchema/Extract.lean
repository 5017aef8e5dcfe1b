import PanelSchema.Declaration.Line
import PanelSchema.Syntax.Parse
import PanelSchema.Walk.Routine

/-! The modules of a source. -/

namespace PanelSchema

open Syntax (SourceTree)

def catalogOf (t : SourceTree) : Traced Catalog := do
  let c := Catalog.ofTree t
  Traced.notesOf [c.sizeNote]
  pure c

def missingEntryPoint (name : String) (t : SourceTree) : Problem :=
  .extraction .error s!"missing entry point '{name}'" "guiscribe.extract.extract_modules"
    (some t.mark.span.start) none

def extractModules (t : SourceTree) (declarations : DeclarationTable)
    (settings : Settings) : Traced (List Module) := do
  let catalog ← catalogOf t
  match catalog.routine? settings.entryPoint with
  | none => Traced.fail (missingEntryPoint settings.entryPoint t)
  | some entry =>
    Traced.note .debug s!"walking entry point '{entry.name}'"
    let (_, w) ← (Walk.walkEntry { catalog, declarations, settings } entry).run {}
    if w.modules.isEmpty then
      Traced.note .warn s!"'{entry.name}' never started a module"
    pure w.modules

def extractSource (file content : String) (declarations : DeclarationTable)
    (settings : Settings) : Traced (List Module) := do
  let t ← Syntax.parse file content
  extractModules t declarations settings

end PanelSchema
