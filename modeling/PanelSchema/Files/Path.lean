/-! Paths as texts: joining, parts and order. -/

namespace PanelSchema

inductive PathPart where
  | root
  | here
  | parent
  | name (s : String)
deriving DecidableEq, Repr

namespace PathPart

def rank : PathPart → Nat
  | .root => 0
  | .here => 1
  | .parent => 2
  | .name _ => 3

def text : PathPart → String
  | .root => "/"
  | .here => "."
  | .parent => ".."
  | .name s => s

def ofText (s : String) : PathPart :=
  if s = ".." then .parent else .name s

/-- Names come last and by code point. -/
def le (a b : PathPart) : Bool :=
  a.rank < b.rank || (a.rank == b.rank && a.text ≤ b.text)

end PathPart

namespace Path

def isAbsolute (path : String) : Bool :=
  path.toList.head? == some '/'

def endsInSlash (path : String) : Bool :=
  path.toList.getLast? == some '/'

/-- The texts between the slashes, without the empty ones. -/
def names (path : String) : List String :=
  (path.splitOn "/").filter (!·.isEmpty)

/-- A dot counts only where a relative path begins with it. -/
def parts (path : String) : List PathPart :=
  let rest := (names path).filter (· != ".")
  if isAbsolute path then .root :: rest.map .ofText
  else if (names path).head? = some "." then .here :: rest.map .ofText
  else rest.map .ofText

/-- An absolute second path stands alone. -/
def join (base path : String) : String :=
  if isAbsolute path || base.isEmpty then path
  else if endsInSlash base then base ++ path
  else base ++ "/" ++ path

/-- The last part, if it is a name. -/
def fileName? (path : String) : Option String :=
  match (parts path).getLast? with
  | some (.name s) => some s
  | _ => none

/-- Whether a path is another way to write the dot. -/
def isHere (path : String) : Bool :=
  parts path == [.here]

/-- Part by part; of two paths one of which begins the other, the shorter is
the lesser. -/
def lePart : List PathPart → List PathPart → Bool
  | [], _ => true
  | _ :: _, [] => false
  | a :: as, b :: bs => if a = b then lePart as bs else a.le b

def le (a b : String) : Bool :=
  lePart (parts a) (parts b)

end Path

end PanelSchema
