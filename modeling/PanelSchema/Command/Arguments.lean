/-!
The arguments of the program: a command with one operand and its options. An
option is written short or long, with its value attached or as the next
argument.
-/

namespace PanelSchema.Command

/-- What is written out instead of the model. -/
inductive Stage where
  | tree
  | catalog
deriving DecidableEq, Repr

inductive OptionName where
  | declarations
  | settings
  | output
  | stage
deriving DecidableEq, Repr

namespace OptionName

def all : List OptionName :=
  [.declarations, .settings, .output, .stage]

def short : OptionName → Char
  | .declarations => 'm'
  | .settings => 'c'
  | .output => 'o'
  | .stage => 'd'

def long : OptionName → String
  | .declarations => "metadata"
  | .settings => "config"
  | .output => "output"
  | .stage => "dump"

end OptionName

inductive CommandName where
  | extract
  | declarations
  | summary
deriving DecidableEq, Repr

namespace CommandName

def all : List CommandName :=
  [.extract, .declarations, .summary]

def word : CommandName → String
  | .extract => "extract"
  | .declarations => "metadata"
  | .summary => "summary"

def ofWord? (w : String) : Option CommandName :=
  all.find? (·.word == w)

def options : CommandName → List OptionName
  | .extract => [.declarations, .settings, .output, .stage]
  | .declarations => [.settings, .output]
  | .summary => [.declarations, .settings]

/-- A source may have any name, a folder has to have one. -/
def takesOperand (c : CommandName) (operand : String) : Bool :=
  c != .declarations || !operand.isEmpty

end CommandName

def stageOfWord? : String → Option Stage
  | "ast" => some .tree
  | "tables" => some .catalog
  | _ => none

/-- What an option takes: a stage, or the path of something. -/
def OptionName.takes (o : OptionName) (value : String) : Bool :=
  match o with
  | .stage => (stageOfWord? value).isSome
  | _ => !value.isEmpty

/-- The arguments of a command. -/
structure Given where
  verbosity : Nat := 0
  operand : Option String := none
  values : List (OptionName × String) := []
deriving Repr

def Given.value? (g : Given) (o : OptionName) : Option String :=
  g.values.lookup o

inductive Request where
  | help
  | version
  | run (command : CommandName) (operand : String) (given : Given)
deriving Repr

/-- What a reading of arguments has come to. -/
inductive Progress where
  | given (g : Given)
  /-- The option waits for its value. -/
  | awaiting (o : OptionName) (g : Given)
  | help
  | wrong
deriving Repr

/-- Each option is given once. -/
def Given.set (g : Given) (o : OptionName) (value : String) : Progress :=
  if (g.value? o).isSome || !o.takes value then .wrong
  else .given { g with values := (o, value) :: g.values }

def Given.addOperand (c : CommandName) (g : Given) (operand : String) : Progress :=
  if g.operand.isSome || !c.takesOperand operand then .wrong
  else .given { g with operand := some operand }

/-- A group of short options; what stands behind one that takes a value is its
value, after an equals sign if there is one. -/
def readShort (c : CommandName) (g : Given) : List Char → Progress
  | [] => .given g
  | 'v' :: rest => readShort c { g with verbosity := g.verbosity + 1 } rest
  | 'h' :: _ => .help
  | x :: rest =>
    match c.options.find? (·.short == x) with
    | none => .wrong
    | some o =>
      match rest with
      | [] => .awaiting o g
      | '=' :: value => g.set o (String.ofList value)
      | value => g.set o (String.ofList value)

/-- A long option; an equals sign divides it from its value. -/
def readLong (c : CommandName) (g : Given) (cs : List Char) : Progress :=
  let name := String.ofList (cs.takeWhile (· != '='))
  let attached :=
    match cs.dropWhile (· != '=') with
    | _ :: value => some (String.ofList value)
    | [] => none
  match c.options.find? (·.long == name), attached with
  | some o, some value => g.set o value
  | some o, none => .awaiting o g
  | none, some _ => .wrong
  | none, none =>
    if name = "verbose" then .given { g with verbosity := g.verbosity + 1 }
    else if name = "help" then .help
    else .wrong

/-- Behind two hyphens everything is an operand. -/
def readOperands (c : CommandName) (g : Given) (args : List String) : Progress :=
  args.foldl
    (fun p arg =>
      match p with
      | .given g => g.addOperand c arg
      | p => p)
    (.given g)

/-- The arguments after the command; a single hyphen is an operand or a value. -/
def readArguments (c : CommandName) : Progress → List String → Progress
  | p, [] => p
  | .wrong, _ => .wrong
  | .help, _ => .help
  | .awaiting o g, arg :: rest =>
    match arg.toList with
    | '-' :: _ :: _ => .wrong
    | _ => readArguments c (g.set o arg) rest
  | .given g, arg :: rest =>
    match arg.toList with
    | ['-', '-'] => readOperands c g rest
    | '-' :: '-' :: name => readArguments c (readLong c g name) rest
    | '-' :: x :: more => readArguments c (readShort c g (x :: more)) rest
    | _ => readArguments c (g.addOperand c arg) rest

/-- The request for a command; the operand has to be there. -/
def commandRequest? (c : CommandName) (verbosity : Nat) (args : List String) :
    Option Request :=
  match readArguments c (.given { verbosity }) args with
  | .given g => g.operand.map fun operand => .run c operand g
  | .help => some .help
  | _ => none

/-- Help about the whole or about one command. -/
def helpRequest? (args : List String) : Option Request :=
  match args with
  | [] => some .help
  | [w] => if w = "help" || (CommandName.ofWord? w).isSome then some .help else none
  | _ => none

/-- What a group of short options before the command asks for. -/
def readFlags (verbosity : Nat) : List Char → Except (Option Request) Nat
  | [] => .ok verbosity
  | 'v' :: rest => readFlags (verbosity + 1) rest
  | 'h' :: _ => .error (some .help)
  | 'V' :: _ => .error (some .version)
  | _ => .error none

/-- The request of a whole list of arguments, or nothing if they are wrong. -/
def request? (verbosity : Nat) : List String → Option Request
  | [] => none
  | "--verbose" :: rest => request? (verbosity + 1) rest
  | "--help" :: _ => some .help
  | "--version" :: _ => some .version
  | "help" :: rest => helpRequest? rest
  | arg :: rest =>
    match arg.toList with
    | '-' :: '-' :: _ => none
    | '-' :: x :: more =>
      match readFlags verbosity (x :: more) with
      | .ok n => request? n rest
      | .error asked => asked
    | _ => (CommandName.ofWord? arg).bind fun c => commandRequest? c verbosity rest

end PanelSchema.Command
