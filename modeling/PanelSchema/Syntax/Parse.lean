import PanelSchema.Source.Mismatch
import PanelSchema.Syntax.Reading
import PanelSchema.Traced

/-! The syntax tree of a source text. -/

namespace PanelSchema.Syntax

open Source (Rule)

/-- Runs the build of a tree from the first node number on. -/
def Build.run {α : Type} (b : Build α) : Traced α :=
  let (result, s) := ExceptT.run b |>.run {}
  { notes := s.notes.reverse, result := result.mapError .problem }

/-- A text of white space alone is no source. -/
def parse (file content : String) : Traced SourceTree :=
  let cs := content.toList
  if cs.all isBlank then
    Traced.fail (.emptySource file)
  else
    match Source.grammar.match? .sourceFile cs with
    | .error mismatch => Traced.fail (Source.mismatchProblem file mismatch)
    | .ok [] =>
      Traced.fail
        (.malformed "Expected more inner pairs but found none."
          "guiscribe.ast.rules.fetch_next_pair" (some { file, line := 1, column := 1 }) none)
    | .ok (root :: _) => do
      let tree ← Build.run (Build.sourceTree (Reading.ofPiece file root))
      Traced.note .debug
        s!"parsed {file} into {tree.body.length} top-level declarations"
      pure tree

end PanelSchema.Syntax
