import PanelSchema.Text.Location
import PanelSchema.Text.Quoted

/-! What can go wrong, and how each cause is told. -/

namespace PanelSchema

inductive Severity where
  | info
  | warning
  | error
  | critical
deriving DecidableEq, Repr

def Severity.name : Severity → String
  | .info => "INFO"
  | .warning => "WARNING"
  | .error => "ERROR"
  | .critical => "CRITICAL"

inductive Problem where
  | missingSource (path reason : String)
  | emptySource (file : String)
  /-- The grammar does not match; only the furthest failure is told. -/
  | rejected (reason : String) (location : Location)
  /-- A piece the grammar matched lacks a part its reader needs. -/
  | malformed (message issuer : String) (location : Option Location) (span : Option Span)
  | settings (message path : String)
  | declarations (message directory : String)
  | extraction (severity : Severity) (message issuer : String)
      (location : Option Location) (span : Option Span)
  | command (message : String)
deriving DecidableEq, Repr

namespace Problem

def severity : Problem → Severity
  | .malformed .. => .critical
  | .extraction severity .. => severity
  | _ => .error

def message : Problem → String
  | .missingSource path reason => s!"Cannot read source at {quoted path}: {reason}"
  | .emptySource file => s!"{file} is empty; nothing to extract"
  | .rejected reason _ => s!"Parsing error: {reason}"
  | .malformed message _ _ _ => message
  | .settings message _ => message
  | .declarations message _ => message
  | .extraction _ message _ _ _ => message
  | .command message => message

/-- The part of the program that found the problem. -/
def issuer : Problem → String
  | .missingSource .. => "guiscribe.source"
  | .emptySource _ => "guiscribe.ast.generate_ast_from_source"
  | .rejected .. => "guiscribe.ast.generate_ast_from_source"
  | .malformed _ issuer _ _ => issuer
  | .settings .. => "guiscribe.config.load_from_file"
  | .declarations .. => "guiscribe.metadata.files"
  | .extraction _ _ issuer _ _ => issuer
  | .command _ => "guiscribe.cli"

/-- A problem with a whole file or directory is placed at line zero of it. -/
def location : Problem → Option Location
  | .missingSource .. => none
  | .emptySource file => some { file, line := 1, column := 1 }
  | .rejected _ location => some location
  | .malformed _ _ location _ => location
  | .settings _ path => some { file := path, line := 0, column := 0 }
  | .declarations _ directory => some { file := directory, line := 0, column := 0 }
  | .extraction _ _ _ location _ => location
  | .command _ => none

def span : Problem → Option Span
  | .malformed _ _ _ span => span
  | .extraction _ _ _ _ span => span
  | _ => none

/-- The line shown to the user. -/
def report (p : Problem) : String :=
  let place := (p.location.map Location.text).getD "unknown location"
  s!"GUISCRIBE | {p.severity.name} | {place} | {p.message}"

/-- The line with everything known about the problem. -/
def details (p : Problem) : String :=
  let place := (p.location.map Location.text).getD "unknown"
  let range := (p.span.map Span.text).getD "span:none"
  s!"GUISCRIBE | {p.severity.name} | {place} | {p.issuer} | {range} | {p.message}"

/-- The message with its place in brackets. -/
def sentence (p : Problem) : String :=
  match p with
  | .settings message path => s!"{message} (at {path})"
  | .declarations message directory => s!"{message} (in {directory})"
  | .missingSource .. | .emptySource _ | .command _ => p.message
  | _ =>
    match p.location with
    | some l => s!"{p.message} (at {l.text})"
    | none => p.message

end Problem

end PanelSchema
