import PanelSchema.Command.Run

/-!
The program. It takes a snapshot of the files a command reads, runs the command
on it and carries out what comes of that.
-/

namespace PanelSchema.Program

def usage : String :=
  "Reconstructs property schemas from editor draw routines\n\n"
    ++ "Usage: guiscribe [-v]... <COMMAND>\n\n"
    ++ "  extract FILE [-m DIR] [-c CONFIG] [-o FILE] [-d ast|tables]\n"
    ++ "  metadata DIR [-c CONFIG] [-o FILE]\n"
    ++ "  summary FILE [-m DIR] [-c CONFIG]"

/-- Every path on the way to a path. -/
def waysTo (path : String) : List String :=
  let start := if Path.isAbsolute path then "/" else ""
  ((Path.names path).foldl
    (fun (ways, last) name => (ways ++ [Path.join last name], Path.join last name))
    ([], start)).1

/-- Takes in the folders on the way to a path. -/
def addWay (fs : Files) (path : String) : IO Files := do
  let here ← IO.currentDir
  let mut fs := fs
  for way in waysTo path do
    if ← (here / way).isDir then
      fs := fs.addFolder way
  pure fs

/-- Takes in a file, or a folder with all that is in it. -/
partial def addAll (fs : Files) (path : String) : IO Files := do
  let place := (← IO.currentDir) / path
  if ← place.isDir then
    let mut fs := fs.addFolder path
    for entry in ← place.readDir do
      fs ← addAll fs (Path.join path entry.fileName)
    pure fs
  else if ← place.pathExists then
    pure (fs.addFile path (← IO.FS.readBinFile place))
  else
    pure fs

def addPath (fs : Files) (path : String) : IO Files := do
  addAll (← addWay fs path) path

/-- The files a command reads and the folder it writes to. The settings come
first: they say where declarations are. -/
def snapshot (c : Command.CommandName) (operand : String) (g : Command.Given) : IO Files := do
  let mut fs : Files := {}
  if let some path := g.value? .settings then
    fs ← addPath fs path
  if let some path := g.value? .output then
    fs ← addWay fs path
  let settings := ((Command.loadSettings fs g).result.toOption).getD {}
  for path in Command.readPaths c operand g settings do
    fs ← addPath fs path
  pure fs

def shownLevel : Nat → NoteLevel
  | 0 => .warn
  | 1 => .info
  | 2 => .debug
  | _ => .trace

def finish (g : Command.Given) (o : Command.Outcome) : IO Unit := do
  for n in notesUpTo (shownLevel g.verbosity) o.notes do
    IO.eprintln s!"{n.level.name} {n.text}"
  IO.print o.printed
  if let some line := o.report then
    IO.eprintln line
  if o.exit = 0 then
    if let some path := g.value? .output then
      if let .ok bytes := o.files.read path then
        IO.FS.writeBinFile path bytes

end PanelSchema.Program

open PanelSchema in
def main (args : List String) : IO UInt32 := do
  match Command.request? 0 args with
  | some (.run c operand g) =>
    let fs ← Program.snapshot c operand g
    let o := Command.run fs args
    Program.finish g o
    return UInt32.ofNat o.exit
  | some .help =>
    IO.println Program.usage
    return 0
  | some .version =>
    IO.println Command.versionText
    return 0
  | none =>
    IO.eprintln Program.usage
    return 2
