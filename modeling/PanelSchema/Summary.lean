import PanelSchema.Model.Basic
import PanelSchema.Text.Width
import PanelSchema.Visibility.Basic

/-! Modules as a table, one row for each showing of a property in a section. -/

namespace PanelSchema

namespace Summary

def header : List String :=
  ["Module", "Section", "Property", "Type", "Conditions"]

/-- Labels of inner sections are indented by their depth. -/
def row (m : Module) (s : Section) (p : Property) : List String :=
  [m.name, String.ofList (List.replicate (2 * s.depth) ' ') ++ s.label,
    p.displayName.getD p.name, p.type.name, Visibility.text { conditions := p.conditions }]

def rows (ms : List Module) : List (List String) :=
  ms.flatMap fun m => m.sections.flatMap fun s => (m.propertiesOf s).map (row m s)

def cellLines (cell : String) : List String :=
  cell.splitOn "\n"

def cellWidth (cell : String) : Nat :=
  ((cellLines cell).map textWidth).foldl max 0

/-- The widest cell of each column. -/
def columnWidths (table : List (List String)) : List Nat :=
  table.foldl (fun ws cells => List.zipWith max ws (cells.map cellWidth))
    (List.replicate header.length 0)

def padded (width : Nat) (s : String) : String :=
  s ++ String.ofList (List.replicate (width - textWidth s) ' ')

/-- A row takes as many lines as its highest cell. -/
def rowLines (widths : List Nat) (cells : List String) : List String :=
  let columns := cells.map cellLines
  let height := (columns.map List.length).foldl max 0
  (List.range height).map fun i =>
    let texts := List.zipWith (fun w (ls : List String) => padded w (ls.getD i "")) widths columns
    "│ " ++ " ┆ ".intercalate texts ++ " │"

def rule (left fill cross right : String) (widths : List Nat) : String :=
  let bars := widths.map fun w => String.join (List.replicate (w + 2) fill)
  left ++ cross.intercalate bars ++ right

def text (ms : List Module) : String :=
  let body := rows ms
  let widths := columnWidths (header :: body)
  let between := rule "├" "╌" "┼" "┤" widths
  "\n".intercalate
    ([rule "┌" "─" "┬" "┐" widths] ++ rowLines widths header
      ++ [rule "╞" "═" "╪" "╡" widths]
      ++ (List.intersperse [between] (body.map (rowLines widths))).flatten
      ++ [rule "└" "─" "┴" "┘" widths])

end Summary

end PanelSchema
