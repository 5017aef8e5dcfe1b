/-! Places in a text. Lines and columns count from one, columns in characters. -/

namespace PanelSchema

/-- A point between two characters of a text. -/
structure Position where
  offset : Nat := 0
  line : Nat := 1
  column : Nat := 1
deriving DecidableEq, Repr, Inhabited

/-- Only a line feed ends a line, so a carriage return before one is the last
column of its line and a lone carriage return is an ordinary column. -/
def Position.advance (p : Position) (c : Char) : Position :=
  if c = '\n' then
    { offset := p.offset + 1, line := p.line + 1, column := 1 }
  else
    { offset := p.offset + 1, line := p.line, column := p.column + 1 }

@[simp] theorem Position.advance_offset (p : Position) (c : Char) :
    (p.advance c).offset = p.offset + 1 := by
  unfold Position.advance
  split <;> rfl

structure Location where
  file : String
  line : Nat
  column : Nat
deriving DecidableEq, Repr, Inhabited

def Location.text (l : Location) : String :=
  s!"{l.file}:{l.line}:{l.column}"

def Position.inFile (p : Position) (file : String) : Location :=
  { file, line := p.line, column := p.column }

structure Span where
  start : Location
  stop : Location
deriving DecidableEq, Repr, Inhabited

def Span.isSingleLine (s : Span) : Bool :=
  s.start.line == s.stop.line

/-- Within one line only the closing column is repeated. -/
def Span.text (s : Span) : String :=
  if s.isSingleLine then
    s!"{s.start.text}-{s.stop.column}"
  else
    s!"{s.start.text} - {s.stop.text}"

end PanelSchema
