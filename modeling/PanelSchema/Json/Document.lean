import PanelSchema.Json.Token
import PanelSchema.Json.Value

/-!
JSON texts as far as they could be read. What a text should hold decides which
of several faults in it is met first, so a fault is not the end of reading but
a part of the document, and taking a value from a document meets the faults in
the order of the text.
-/

namespace PanelSchema

/-- How the fields of an object end. -/
inductive ObjectEnd (α : Type) where
  | closed
  | fault (f : JsonFault)
  /-- Something other than a string where a key should stand. -/
  | badKey (found : α)
deriving Repr

inductive Document where
  | null
  | bool (b : Bool)
  | int (n : Int)
  | float (x : Float)
  | str (s : String)
  /-- The fault, if there is one, stands after the items. -/
  | arr (items : List Document) (fault : Option JsonFault)
  /-- A field has its key, its value and the fault of skipping the value. -/
  | obj (fields : List (String × Document × Option JsonFault)) (fin : ObjectEnd Document)
  /-- A fault in place of a value. A word or number that cannot be read is told
  from the other faults. -/
  | broken (f : JsonFault) (scalar : Bool)
deriving Repr, Inhabited

namespace Document

open Json

/-! ### Skipping -/

mutual

/-- The text after a value whose form is all that is asked. -/
def skipValue : Nat → List Char → Except JsonFault (List Char)
  | 0, _ => .error .endInValue
  | fuel + 1, cs =>
    match skipSpace cs with
    | [] => .error .endInValue
    | 'n' :: rest => readWord ['u', 'l', 'l'] rest
    | 't' :: rest => readWord ['r', 'u', 'e'] rest
    | 'f' :: rest => readWord ['a', 'l', 's', 'e'] rest
    | '"' :: rest => skipString rest
    | '[' :: rest =>
      match skipSpace rest with
      | [] => .error .endInList
      | ']' :: rest => .ok rest
      | rest => skipItems fuel rest
    | '\x7b' :: rest =>
      match skipSpace rest with
      | [] => .error .endInObject
      | '\x7d' :: rest => .ok rest
      | rest => skipFields fuel rest
    | c :: rest =>
      if c = '-' ∨ c.isDigit then skipNumber (c :: rest) else .error .expectedValue

def skipItems : Nat → List Char → Except JsonFault (List Char)
  | 0, _ => .error .endInValue
  | fuel + 1, cs => do
    let rest ← skipValue fuel cs
    match skipSpace rest with
    | [] => .error .endInList
    | ',' :: rest => skipItems fuel rest
    | ']' :: rest => .ok rest
    | _ => .error .expectedItemEnd

def skipFields : Nat → List Char → Except JsonFault (List Char)
  | 0, _ => .error .endInValue
  | fuel + 1, cs => do
    match skipSpace cs with
    | [] => .error .endInObject
    | '"' :: rest =>
      let rest ← skipString rest
      match skipSpace rest with
      | [] => .error .endInObject
      | ':' :: rest =>
        let rest ← skipValue fuel rest
        match skipSpace rest with
        | [] => .error .endInObject
        | ',' :: rest => skipFields fuel rest
        | '\x7d' :: rest => .ok rest
        | _ => .error .expectedFieldEnd
      | _ => .error .expectedColon
    | _ => .error .keyNotText

end

/-! ### Reading -/

/-- A document with the text after it; there is none after a fault. -/
abbrev Part (α : Type) := α × Option (List Char)

def fail (f : JsonFault) : Part Document :=
  (.broken f false, none)

def scalar : Except JsonFault (Rest Document) → Part Document
  | .ok (d, rest) => (d, some rest)
  | .error f => (.broken f true, none)

def readScalarWord (w : List Char) (d : Document) (cs : List Char) : Part Document :=
  scalar ((readWord w cs).map fun rest => (d, rest))

def ofNumber : Number → Document
  | .int n => .int n
  | .float x => .float x

mutual

/-- Values nested more than `depth` deep are a fault. -/
def readValue : Nat → Nat → List Char → Part Document
  | 0, _, _ => fail .endInValue
  | fuel + 1, depth, cs =>
    match skipSpace cs with
    | [] => fail .endInValue
    | 'n' :: rest => readScalarWord ['u', 'l', 'l'] .null rest
    | 't' :: rest => readScalarWord ['r', 'u', 'e'] (.bool true) rest
    | 'f' :: rest => readScalarWord ['a', 'l', 's', 'e'] (.bool false) rest
    | '"' :: rest =>
      match readString rest with
      | .ok (s, rest) => (.str s, some rest)
      | .error f => fail f
    | '[' :: rest =>
      if depth ≤ 1 then fail .tooDeep
      else
        let ((items, fault), rest) := readItems fuel (depth - 1) true rest
        (.arr items fault, rest)
    | '\x7b' :: rest =>
      if depth ≤ 1 then fail .tooDeep
      else
        let ((fields, fin), rest) := readFields fuel (depth - 1) true rest
        (.obj fields fin, rest)
    | c :: rest =>
      if c = '-' ∨ c.isDigit then
        scalar ((readNumber (c :: rest)).map fun (n, rest) => (ofNumber n, rest))
      else (.broken .expectedValue true, none)

def readItems : Nat → Nat → Bool → List Char →
    Part (List Document × Option JsonFault)
  | 0, _, _, _ => (([], some .endInList), none)
  | fuel + 1, depth, first, cs =>
    let item (cs : List Char) : Part (List Document × Option JsonFault) :=
      match readValue fuel depth cs with
      | (d, none) => (([d], none), none)
      | (d, some rest) =>
        let ((ds, fault), rest) := readItems fuel depth false rest
        ((d :: ds, fault), rest)
    match skipSpace cs with
    | [] => (([], some .endInList), none)
    | ']' :: rest => (([], none), some rest)
    | c :: rest =>
      if first then item (c :: rest)
      else if c = ',' then
        match skipSpace rest with
        | [] => (([], some .endInValue), none)
        | ']' :: _ => (([], some .trailingComma), none)
        | rest => item rest
      else (([], some .expectedItemEnd), none)

def readFields : Nat → Nat → Bool → List Char →
    Part (List (String × Document × Option JsonFault) × ObjectEnd Document)
  | 0, _, _, _ => (([], .fault .endInObject), none)
  | fuel + 1, depth, first, cs =>
    let field (key : String) (cs : List Char) :
        Part (List (String × Document × Option JsonFault) × ObjectEnd Document) :=
      let next (d : Document) (rest : List Char) :=
        let ((fs, fin), rest) := readFields fuel depth false rest
        (((key, d, none) :: fs, fin), rest)
      match skipSpace cs with
      | [] => (([(key, .broken .endInObject false, some .endInObject)], .closed), none)
      | ':' :: rest =>
        match readValue fuel depth rest with
        | (d, some after) => next d after
        | (d, none) =>
          match skipValue fuel rest with
          | .ok after => next d after
          | .error f => (([(key, d, some f)], .closed), none)
      | _ => (([(key, .broken .expectedColon false, some .expectedColon)], .closed), none)
    let keyed (cs : List Char) :
        Part (List (String × Document × Option JsonFault) × ObjectEnd Document) :=
      match cs with
      | '"' :: rest =>
        match readString rest with
        | .ok (key, rest) => field key rest
        | .error f => (([], .fault f), none)
      | _ => (([], .badKey (readValue fuel depth cs).1), none)
    match skipSpace cs with
    | [] => (([], .fault .endInObject), none)
    | '\x7d' :: rest => (([], .closed), some rest)
    | c :: rest =>
      if first then keyed (c :: rest)
      else if c = ',' then
        match skipSpace rest with
        | [] => (([], .fault .endInValue), none)
        | '\x7d' :: _ => (([], .fault .trailingComma), none)
        | rest => keyed rest
      else (([], .fault .expectedFieldEnd), none)

end

/-- Lists and objects may stand in each other this often. -/
def greatestDepth : Nat := 128

/-- The document of a whole text, with what stands after it. No step takes less
than a third of a character. -/
def read (text : String) : Part Document :=
  let cs := text.toList
  readValue (3 * cs.length + 3) greatestDepth cs

/-! ### Faults -/

mutual

/-- The first fault of a document that is read without knowing what it holds. -/
def fault? : Document → Option JsonFault
  | .broken f _ => some f
  | .arr items f => (itemsFault? items).orElse fun _ => f
  | .obj fields fin =>
    (fieldsFault? fields).orElse fun _ =>
      match fin with
      | .closed => none
      | .fault f => some f
      | .badKey _ => some .keyNotText
  | _ => none

def itemsFault? : List Document → Option JsonFault
  | [] => none
  | d :: rest => (fault? d).orElse fun _ => itemsFault? rest

def fieldsFault? : List (String × Document × Option JsonFault) → Option JsonFault
  | [] => none
  | (_, d, _) :: rest => (fault? d).orElse fun _ => fieldsFault? rest

end

end Document

end PanelSchema
