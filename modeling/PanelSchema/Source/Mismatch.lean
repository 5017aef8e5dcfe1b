import PanelSchema.Problem
import PanelSchema.Source.Grammar

/-! What a failed match of the source grammar is told as. -/

namespace PanelSchema.Source

/-- In grammar order, each rule once. -/
def inOrder (rules : List Rule) : List Rule :=
  Rule.all.filter rules.contains

/-- `a`, `a or b`, `a, b, or c` -/
def listed : List String → String
  | [] => ""
  | [a] => a
  | [a, b] => s!"{a} or {b}"
  | names => ", ".intercalate names.dropLast ++ ", or " ++ names.getLastD ""

def namesOf (rules : List Rule) : String :=
  listed ((inOrder rules).map Rule.name)

def mismatchText (m : Grammar.Mismatch Rule) : String :=
  match m.unexpected, m.expected with
  | [], [] => "unknown parsing error"
  | unexpected, [] => s!"unexpected {namesOf unexpected}"
  | [], expected => s!"expected {namesOf expected}"
  | unexpected, expected =>
    s!"unexpected {namesOf unexpected}; expected {namesOf expected}"

def mismatchProblem (file : String) (m : Grammar.Mismatch Rule) : Problem :=
  .rejected (mismatchText m) (m.position.inFile file)

end PanelSchema.Source
