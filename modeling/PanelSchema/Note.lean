/-! Notes left behind while work is done, from the gravest to the most detailed. -/

namespace PanelSchema

inductive NoteLevel where
  | warn
  | info
  | debug
  | trace
deriving DecidableEq, Repr

def NoteLevel.rank : NoteLevel → Nat
  | .warn => 0
  | .info => 1
  | .debug => 2
  | .trace => 3

def NoteLevel.name : NoteLevel → String
  | .warn => "WARN"
  | .info => "INFO"
  | .debug => "DEBUG"
  | .trace => "TRACE"

structure Note where
  level : NoteLevel
  text : String
deriving DecidableEq, Repr

/-- The notes at least as grave as `level`. -/
def notesUpTo (level : NoteLevel) (notes : List Note) : List Note :=
  notes.filter fun n => n.level.rank ≤ level.rank

end PanelSchema
