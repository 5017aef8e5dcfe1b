import PanelSchema.Declaration.Grammar
import PanelSchema.Declaration.Record
import PanelSchema.Text.Blank

/-! Reading property declarations, a line each. -/

namespace PanelSchema.Declaration

/-- The line up to the first pair of slashes outside quotes. -/
def dropComment (inQuotes : Bool) : List Char → List Char
  | [] => []
  | c :: rest =>
    if c = '"' then c :: dropComment (!inQuotes) rest
    else if c = '/' ∧ inQuotes = false ∧ rest.head? = some '/' then []
    else c :: dropComment inQuotes rest

/-- A decimal number with any number of `f` behind it. -/
def number? (cs : List Char) : Option Float :=
  readFloat? ((trim cs).reverse.dropWhile (fun c => c == 'f' || c == 'F')).reverse

def typeOfToken (token : String) : PropertyType :=
  match String.ofList (token.toList.map Char.toLower) with
  | "float" => .float
  | "int" | "integer" => .int
  | "range" => .range
  | "color" => .color
  | "vector" => .vector
  | "2d" | "3d" | "cube" | "2darray" | "cubearray" | "any" => .texture
  | _ => .unknown

/-- Labels and their numbers, given by turns. -/
def enumPairs : List String → List (String × Int)
  | label :: value :: rest =>
    (label, ((number? value.toList).map floatToInt).getD 0) :: enumPairs rest
  | _ => []

def applyAttribute (d : Declaration) (name : String) (args : List String) : Declaration :=
  match name with
  | "Toggle" | "ToggleUI" | "ToggleOff" | "MaterialToggle" =>
    { d with type := .toggle, toggle := true }
  | "IntRange" => if d.type = .range then { d with type := .int } else d
  | "Enum" =>
    let d := { d with type := .enum }
    match args with
    | [type] => { d with enumType := some type }
    | _ =>
      if args.length % 2 = 0 then
        let pairs := enumPairs args
        { d with
          enumLabels := d.enumLabels ++ pairs.map (·.1)
          enumNumbers := d.enumNumbers ++ pairs.map (·.2) }
      else
        d
  | "KeywordEnum" =>
    { d with
      type := .enum
      enumLabels := args
      enumNumbers := (List.range args.length).map Int.ofNat }
  | _ => d

/-- Missing components are black and opaque. -/
def colorOf (xs : List Float) : PropertyDefault :=
  .color (xs[0]?.getD 0.0) (xs[1]?.getD 0.0) (xs[2]?.getD 0.0) (xs[3]?.getD 1.0)

/-- An attribute's name and arguments. -/
def attributeOf? (p : Piece Rule) : Option (String × List String) :=
  match p.inner with
  | [] => none
  | name :: rest =>
    let args :=
      match rest with
      | [] => []
      | list :: _ => list.inner.map fun a => String.ofList (trim a.chars)
    some (name.text, args)

def withType? (d : Declaration) (p : Piece Rule) : Option Declaration :=
  match p.inner with
  | [] => none
  | t :: _ =>
    if t.rule = .rangeType then
      match t.inner with
      | lo :: hi :: _ => do
        let min ← number? lo.chars
        let max ← number? hi.chars
        pure { d with type := .range, range := some { min, max } }
      | _ => none
    else
      some { d with type := typeOfToken t.text }

/-- Fills in what one piece of the line says. -/
def withPiece? (d : Declaration) (p : Piece Rule) : Option Declaration :=
  match p.rule with
  | .propName => some { d with identifier := p.text }
  | .display =>
    some { d with displayName := some ((p.inner.head?.map Piece.text).getD "") }
  | .propType => withType? d p
  | _ => some d

/-- The default a piece stands for, which hangs on the type of the property. -/
def defaultOf? (type : PropertyType) (p : Piece Rule) : Option (Option PropertyDefault) :=
  match p.rule with
  | .number =>
    (number? p.chars).map fun x =>
      match type with
      | .int | .enum => some (.int (floatToInt x))
      | .texture | .color | .vector => none
      | _ => some (.float x)
  | .vectorDefault =>
    (p.inner.mapM fun n => number? n.chars).map fun xs =>
      if type = .color then some (colorOf xs) else some (.vector xs)
  | _ => some none

def ofPieces? (pieces : List (Piece Rule)) : Option Declaration := do
  let attributes ← (pieces.filter (·.rule == .attributeItem)).mapM attributeOf?
  let plain ← pieces.foldlM withPiece? {}
  let d := attributes.foldl (fun d a => applyAttribute d a.1 a.2) plain
  match pieces.reverse.find? (·.rule == .defaultValue) with
  | none => pure d
  | some value =>
    match value.inner with
    | [] => pure d
    | v :: _ => do
      let default ← defaultOf? d.type v
      pure { d with default }

/-- The declaration on a line, if that is what the line holds. -/
def ofLine? (line : List Char) : Option Declaration :=
  let text := trim (dropComment false line)
  if text.contains '_' && text.contains '=' then
    match grammar.match? .propertyLine text with
    | .ok (root :: _) => ofPieces? root.inner
    | _ => none
  else
    none

/-- The lines of a text. A carriage return before the line feed belongs to it,
and nothing follows a final line feed. -/
def linesOf (cs : List Char) : List (List Char) :=
  let dropReturn (line : List Char) : List Char :=
    if line.getLast? = some '\r' then line.dropLast else line
  let parts := cs.splitOn '\n'
  let lines := parts.dropLast.map dropReturn
  match parts.getLast? with
  | none | some [] => lines
  | some last => lines ++ [last]

/-- The declarations of a text, in order. -/
def ofText (text : String) : List Declaration :=
  (linesOf text.toList).filterMap ofLine?

end PanelSchema.Declaration

namespace PanelSchema

/-- The table after a text was read, and the number of declarations in it. -/
def DeclarationTable.scan (t : DeclarationTable) (text : String) : DeclarationTable × Nat :=
  let ds := Declaration.ofText text
  (ds.foldl DeclarationTable.add t, ds.length)

end PanelSchema
