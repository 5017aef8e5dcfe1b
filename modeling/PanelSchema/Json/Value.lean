import PanelSchema.Number.Decimal
import PanelSchema.Text.Quoted

/-! JSON values and the indented text they are written as. -/

namespace PanelSchema

inductive Json where
  | null
  | bool (b : Bool)
  | int (n : Int)
  | float (x : Float)
  | str (s : String)
  | arr (items : List Json)
  | obj (fields : List (String × Json))
deriving Inhabited, Repr

namespace Json

def escapeChar (c : Char) : String :=
  if c = '"' then "\\\""
  else if c = '\\' then "\\\\"
  else if c = '\x08' then "\\b"
  else if c = '\x0c' then "\\f"
  else if c = '\n' then "\\n"
  else if c = '\r' then "\\r"
  else if c = '\t' then "\\t"
  else if c.toNat < 0x20 then
    (if c.toNat < 0x10 then "\\u000" else "\\u00") ++ hexText c.toNat
  else c.toString

def escaped (s : String) : String :=
  "\"" ++ String.join (s.toList.map escapeChar) ++ "\""

/-- A float that is not finite has no JSON number and becomes `null`. -/
def floatText (x : Float) : String :=
  match Quantity.ofFloat x with
  | .finite _ _ => FloatLayout.json.text x
  | _ => "null"

/-- The start of a line at a depth of nesting. -/
def margin (depth : Nat) : String :=
  String.ofList (List.replicate (2 * depth) ' ')

/-- Lines between brackets; nothing stands between the brackets of an empty list. -/
def bracketed (opening closing : String) (depth : Nat) (lines : List String) : String :=
  if lines.isEmpty then opening ++ closing
  else
    opening ++ "\n" ++ ",\n".intercalate (lines.map (margin (depth + 1) ++ ·)) ++ "\n"
      ++ margin depth ++ closing

mutual

def textAt (depth : Nat) : Json → String
  | .null => "null"
  | .bool b => if b then "true" else "false"
  | .int n => toString n
  | .float x => floatText x
  | .str s => escaped s
  | .arr items => bracketed "[" "]" depth (itemTexts (depth + 1) items)
  | .obj fields => bracketed "\x7b" "\x7d" depth (fieldTexts (depth + 1) fields)

def itemTexts (depth : Nat) : List Json → List String
  | [] => []
  | v :: rest => textAt depth v :: itemTexts depth rest

def fieldTexts (depth : Nat) : List (String × Json) → List String
  | [] => []
  | (key, v) :: rest =>
    (escaped key ++ ": " ++ textAt depth v) :: fieldTexts depth rest

end

/-- One field or item a line, each level two blanks further in. -/
def pretty (j : Json) : String :=
  j.textAt 0

/-- The field, unless the list is empty. -/
def listField {α : Type} (key : String) (f : α → Json) (xs : List α) : List (String × Json) :=
  if xs.isEmpty then [] else [(key, .arr (xs.map f))]

def optField {α : Type} (key : String) (f : α → Json) : Option α → List (String × Json)
  | some a => [(key, f a)]
  | none => []

/-- A flag is written only when it is set. -/
def flagField (key : String) (b : Bool) : List (String × Json) :=
  if b then [(key, .bool true)] else []

end Json

end PanelSchema
