import PanelSchema.Files.Path

/-!
Files as a tree of folders. Relative paths start in a working folder whose own
name no path can spell, so that a path may leave it only through its parent.
-/

namespace PanelSchema

inductive FileNode where
  | file (bytes : ByteArray)
  | folder (entries : List (String × FileNode))

instance : Inhabited FileNode := ⟨.folder []⟩

inductive FileFault where
  | missing
  | notFolder
  | isFolder
  | notText
  | zeroInPath
  | nameTooLong
deriving DecidableEq, Repr

def FileFault.reason : FileFault → String
  | .missing => "No such file or directory (os error 2)"
  | .notFolder => "Not a directory (os error 20)"
  | .isFolder => "Is a directory (os error 21)"
  | .notText => "stream did not contain valid UTF-8"
  | .zeroInPath => "file name contained an unexpected NUL byte"
  | .nameTooLong => "File name too long (os error 36)"

namespace FileNode

def isFolder : FileNode → Bool
  | .folder _ => true
  | .file _ => false

def entries : FileNode → List (String × FileNode)
  | .folder es => es
  | .file _ => []

def at? : List String → FileNode → Option FileNode
  | [], node => some node
  | name :: rest, node => (node.entries.lookup name).bind (at? rest)

def setEntry (name : String) (node : FileNode) :
    List (String × FileNode) → List (String × FileNode)
  | [] => [(name, node)]
  | (n, old) :: rest =>
    if n = name then (name, node) :: rest else (n, old) :: setEntry name node rest

/-- Puts a node at a place, with the folders on the way to it. -/
def put : FileNode → List String → FileNode → FileNode
  | _, [], new => new
  | node, name :: rest, new =>
    let below := (node.entries.lookup name).getD (.folder [])
    .folder (setEntry name (put below rest new) node.entries)

mutual

/-- The greatest number of names on a way down. -/
def depth : FileNode → Nat
  | .file _ => 0
  | .folder es => entriesDepth es

def entriesDepth : List (String × FileNode) → Nat
  | [] => 0
  | (_, node) :: rest => max (depth node + 1) (entriesDepth rest)

end

end FileNode

/-- The names on the way from the top. -/
abbrev Place := List String

structure Files where
  top : FileNode := .folder [("", .folder [])]

namespace Files

/-- Where relative paths start. -/
def workingPlace : Place := [""]

def startOf (path : String) : Place :=
  if Path.isAbsolute path then [] else workingPlace

def at? (fs : Files) (p : Place) : Option FileNode :=
  fs.top.at? p

def isFolderAt (fs : Files) (p : Place) : Bool :=
  ((fs.at? p).map FileNode.isFolder).getD false

def isFileAt (fs : Files) (p : Place) : Bool :=
  ((fs.at? p).map (!·.isFolder)).getD false

/-- The parent of the top is the top. -/
def walk (p : Place) (name : String) : Place :=
  if name = "." then p else if name = ".." then p.dropLast else p ++ [name]

def longestName : Nat := 255

def longestPath : Nat := 4095

def step (fs : Files) (p : Place) (name : String) : Except FileFault Place :=
  if !fs.isFolderAt p then .error .notFolder
  else if longestName < name.utf8ByteSize then .error .nameTooLong
  else if (fs.at? (walk p name)).isSome then .ok (walk p name)
  else .error .missing

/-- What is wrong with a path as a text. -/
def pathFault? (path : String) : Option FileFault :=
  if path.toList.contains '\x00' then some .zeroInPath
  else if path.isEmpty then some .missing
  else if longestPath < path.utf8ByteSize then some .nameTooLong
  else none

/-- The place a path leads to. Every name on the way has to be there, also one
that a later `..` leaves again. -/
def resolve (fs : Files) (path : String) : Except FileFault Place :=
  match pathFault? path with
  | some f => .error f
  | none => do
    let p ← (Path.names path).foldlM fs.step (startOf path)
    if Path.endsInSlash path && !fs.isFolderAt p then .error .notFolder else .ok p

def read (fs : Files) (path : String) : Except FileFault ByteArray := do
  match fs.at? (← fs.resolve path) with
  | some (.file bytes) => .ok bytes
  | some (.folder _) => .error .isFolder
  | none => .error .missing

def readText (fs : Files) (path : String) : Except FileFault String := do
  match String.fromUTF8? (← fs.read path) with
  | some s => .ok s
  | none => .error .notText

/-- The folder a new file would be in, and its name. A path that ends in a slash
or in dots is no name for a file. -/
def target (fs : Files) (path : String) : Except FileFault (Place × String) :=
  match pathFault? path with
  | some f => .error f
  | none => do
    let names := Path.names path
    let home ← names.dropLast.foldlM fs.step (startOf path)
    if !fs.isFolderAt home then .error .notFolder
    else
      match names.getLast? with
      | none => .error .isFolder
      | some name =>
        if Path.endsInSlash path || name = "." || name = ".." then .error .isFolder
        else if longestName < name.utf8ByteSize then .error .nameTooLong
        else .ok (home, name)

/-- Writes a file in a folder that is there; an older file gives way. -/
def write (fs : Files) (path : String) (bytes : ByteArray) : Except FileFault Files := do
  let (home, name) ← fs.target path
  let p := home ++ [name]
  if fs.isFolderAt p then .error .isFolder
  else .ok { top := fs.top.put p (.file bytes) }

/-- The place a path leads to if all is there. -/
def plainPlace (path : String) : Place :=
  (Path.names path).foldl walk (startOf path)

/-- Adds a file with the folders on the way to it. -/
def addFile (fs : Files) (path : String) (bytes : ByteArray) : Files :=
  { top := fs.top.put (plainPlace path) (.file bytes) }

/-- Adds a folder that is not there yet. -/
def addFolder (fs : Files) (path : String) : Files :=
  let p := plainPlace path
  if fs.isFolderAt p then fs else { top := fs.top.put p (.folder []) }

end Files

end PanelSchema
