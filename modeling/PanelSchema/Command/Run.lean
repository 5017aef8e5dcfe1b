import PanelSchema.Command.Arguments
import PanelSchema.Declaration.Json
import PanelSchema.Project
import PanelSchema.Settings.Load
import PanelSchema.Summary
import PanelSchema.Syntax.Dump

/-! What the commands do. -/

namespace PanelSchema.Command

open Syntax (SourceTree)

def versionText : String := "guiscribe 0.1.0"

def loadSettings (fs : Files) (g : Given) : Traced Settings :=
  match g.value? .settings with
  | some path => Settings.load fs path
  | none => pure {}

def loadTree (fs : Files) (path : String) : Traced SourceTree := do
  let source ← SourceFile.load fs path
  Syntax.parse source.name source.content

def scanFolder (fs : Files) (folder : String) (settings : Settings) :
    Traced DeclarationTable := do
  let paths ← declarationFiles fs folder settings.declarationPattern
  let s ← Scan.ofFiles fs paths
  Traced.note .info s!"scanned {s.filesRead} of {paths.length} metadata files"
  pure s.table

def extractTree (fs : Files) (t : SourceTree) (g : Given) (settings : Settings) :
    Traced (List Module) := do
  let table ←
    match g.value? .declarations with
    | some folder => scanFolder fs folder settings
    | none => pure {}
  extractModules t table settings

/-- The text a command produces. The settings are read first and the
declarations after the source, so of several faults the first of these is told;
a dump of the source does without declarations. -/
def produce (fs : Files) (c : CommandName) (operand : String) (g : Given) :
    Traced String := do
  let settings ← loadSettings fs g
  match c with
  | .extract =>
    let t ← loadTree fs operand
    match (g.value? .stage).bind stageOfWord? with
    | some .tree => pure t.dump
    | some .catalog => do
      let catalog ← catalogOf t
      pure catalog.dump
    | none => do
      let ms ← extractTree fs t g settings
      pure (modulesJson ms).pretty
  | .declarations => do
    let table ← scanFolder fs operand settings
    pure table.toJson.pretty
  | .summary => do
    let t ← loadTree fs operand
    let ms ← extractTree fs t g settings
    pure (Summary.text ms)

/-- The path before the first part of a pattern that has a wildcard. -/
def fixedPart (pattern : String) : String :=
  let plain (name : String) : Bool := !name.toList.any fun c => c = '*' || c = '?' || c = '['
  let start := if Path.isAbsolute pattern then "/" else "."
  ((Path.names pattern).takeWhile plain).foldl Path.join start

/-- The paths at or below which a command reads. -/
def readPaths (c : CommandName) (operand : String) (g : Given) (settings : Settings) :
    List String :=
  let pattern (folder : String) : String :=
    fixedPart (Path.join folder settings.declarationPattern)
  match c with
  | .declarations => [pattern operand]
  | _ => operand :: (g.value? .declarations).toList.map pattern

def writeFault (path reason : String) : Problem :=
  .command s!"cannot write {path}: {reason}"

/-- How a run of the program ends. -/
structure Outcome where
  exit : Nat := 0
  /-- Printed on standard output. -/
  printed : String := ""
  /-- The report of a problem. -/
  report : Option String := none
  notes : List Note := []
  files : Files

/-- The text goes to the file that is asked for, and is printed with a line end
otherwise. -/
def deliver (fs : Files) (g : Given) (text : String) (notes : List Note) : Outcome :=
  match g.value? .output with
  | none => { printed := text ++ "\n", notes, files := fs }
  | some path =>
    match fs.write path text.toUTF8 with
    | .ok files => { notes, files }
    | .error f =>
      { exit := 1, report := some (writeFault path f.reason).report, notes, files := fs }

def run (fs : Files) (args : List String) : Outcome :=
  match request? 0 args with
  | none => { exit := 2, files := fs }
  | some .help => { files := fs }
  | some .version => { printed := versionText ++ "\n", files := fs }
  | some (.run c operand g) =>
    let work := produce fs c operand g
    match work.result with
    | .ok text => deliver fs g text work.notes
    | .error (.problem p) =>
      { exit := 1, report := some p.report, notes := work.notes, files := fs }
    | .error .overflow => { exit := 101, notes := work.notes, files := fs }

end PanelSchema.Command
