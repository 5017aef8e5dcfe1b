import PanelSchema.Dict
import PanelSchema.Json.Document

/-! Taking values of known types from documents. -/

namespace PanelSchema

abbrev Decoder (α : Type) := Document → Except JsonFault α

namespace Decoder

variable {α : Type}

/-- What a document holds where something else is expected. -/
def mismatch (expected : String) : Decoder α
  | .null => .error (.wrongType "null" expected)
  | .bool b => .error (.wrongType ("boolean `" ++ toString b ++ "`") expected)
  | .int n => .error (.wrongType ("integer `" ++ toString n ++ "`") expected)
  | .float x =>
    .error (.wrongType ("floating point `" ++ FloatLayout.json.text x ++ "`") expected)
  | .str s => .error (.wrongType ("string " ++ quoted s) expected)
  | .arr _ _ => .error (.wrongType "sequence" expected)
  | .obj _ _ => .error (.wrongType "map" expected)
  | .broken f _ => .error f

def string : Decoder String
  | .str s => .ok s
  | d => mismatch "a string" d

def bool : Decoder Bool
  | .bool b => .ok b
  | d => mismatch "a boolean" d

def nat : Decoder Nat
  | .int (.ofNat n) => .ok n
  | .int n => .error (.wrongValue ("integer `" ++ toString n ++ "`") "usize")
  | d => mismatch "usize" d

def int : Decoder Int
  | .int n =>
    if n ≤ greatestInt then .ok n
    else .error (.wrongValue ("integer `" ++ toString n ++ "`") "i64")
  | d => mismatch "i64" d

def nearestFloat (n : Int) : Float :=
  Json.signed (n < 0) (floatOfDecimal n.natAbs 0)

def float : Decoder Float
  | .int n => .ok (nearestFloat n)
  | .float x => .ok x
  | d => mismatch "f64" d

def unit : Decoder Unit
  | .null => .ok ()
  | d => mismatch "unit" d

def list (item : Decoder α) : Decoder (List α)
  | .arr items fault => do
    let xs ← items.mapM item
    match fault with
    | some f => .error f
    | none => .ok xs
  | d => mismatch "a sequence" d

def option (value : Decoder α) : Decoder (Option α)
  | .null => .ok none
  | d => (value d).map some

/-- One of several names, also as the key of an object whose value is `null`. -/
def choice (names : List String) (ofName? : String → Option α) : Decoder α :=
  let named (s : String) : Except JsonFault α :=
    match ofName? s with
    | some a => .ok a
    | none => .error (.unknownVariant s names)
  fun
  | .str s => named s
  | .obj [] .closed => .error .expectedValue
  | .obj [] (.fault .endInObject) => .error .endInValue
  | .obj [] (.fault f) => .error f
  | .obj [] (.badKey d) => mismatch "variant identifier" d
  | .obj ((key, d, _) :: rest) fin => do
    let a ← named key
    unit d
    match rest, fin with
    | [], .closed => .ok a
    | [], .fault .endInObject => .error .endInObject
    | _, _ => .error .expectedValue
  | .broken f scalar => .error (if scalar then .expectedValue else f)
  | _ => .error .expectedValue

/-- Leaves the faults of a document of unknown type behind. -/
def sound : Decoder Document := fun d =>
  match d.fault? with
  | some f => .error f
  | none => .ok d

end Decoder

/-- A field of a record that is filled in step by step. -/
structure FieldDecoder (σ : Type) where
  name : String
  required : Bool
  fill : Document → σ → Except JsonFault σ

namespace Decoder

variable {α σ : Type}

def required (name : String) (value : Decoder α) (set : α → σ → σ) : FieldDecoder σ where
  name
  required := true
  fill d s := (value d).map fun a => set a s

def optional (name : String) (value : Decoder α) (set : α → σ → σ) : FieldDecoder σ :=
  { required name value set with required := false }

/-- The fields of an object in the order of the text; `seen` holds the names of
those before. -/
def fillFields (fields : List (FieldDecoder σ)) : List String → σ →
    List (String × Document × Option JsonFault) → Except JsonFault (List String × σ)
  | seen, s, [] => .ok (seen, s)
  | seen, s, (key, d, skipFault) :: rest =>
    match fields.find? (·.name == key) with
    | some f =>
      if seen.contains key then .error (.repeatedField key)
      else do fillFields fields (key :: seen) (← f.fill d s) rest
    | none =>
      match skipFault with
      | some f => .error f
      | none => fillFields fields seen s rest

/-- The items of a list as fields; `count` is how many there were before. What
is expected is said by `whole`. -/
def fillItems (whole : String) (fault : Option JsonFault) : Nat → σ →
    List (FieldDecoder σ) → List Document → Except JsonFault σ
  | count, s, f :: fs, d :: ds => do
    fillItems whole fault (count + 1) (← f.fill d s) fs ds
  | count, s, f :: fs, [] =>
    match fault with
    | some e => .error e
    | none =>
      if f.required then .error (.wrongLength count whole)
      else fillItems whole fault (count + 1) s fs []
  | _, _, [], _ :: _ => .error .trailingText
  | _, s, [], [] =>
    match fault with
    | none => .ok s
    | some .trailingComma => .error .trailingComma
    | some .endInList => .error .endInList
    | some _ => .error .trailingText

/-- A record as an object, or as the list of its fields in order. -/
def record (title : String) (fields : List (FieldDecoder σ)) (start : σ) : Decoder σ
  | .obj entries fin => do
    let (seen, s) ← fillFields fields [] start entries
    match fin with
    | .fault f => .error f
    | .badKey _ => .error .keyNotText
    | .closed =>
      match fields.find? fun f => f.required && !seen.contains f.name with
      | some f => .error (.missingField f.name)
      | none => .ok s
  | .arr items fault =>
    let whole := "struct " ++ title ++ " with " ++ toString fields.length ++ " elements"
    fillItems whole fault 0 start fields items
  | d => mismatch ("struct " ++ title) d

/-- The fields of an object in the order of the text; of several with one key the last counts. -/
def fillEntries (value : Decoder α) : Dict α →
    List (String × Document × Option JsonFault) → Except JsonFault (Dict α)
  | table, [] => .ok table
  | table, (key, d, _) :: rest => do fillEntries value (table.insert key (← value d)) rest

/-- An object whose keys are not known. -/
def dict (value : Decoder α) : Decoder (Dict α)
  | .obj entries fin => do
    let table ← fillEntries value .empty entries
    match fin with
    | .fault f => .error f
    | .badKey _ => .error .keyNotText
    | .closed => .ok table
  | d => mismatch "a map" d

/-- A value that takes up a whole text. -/
def ofText (value : Decoder α) (text : String) : Except JsonFault α := do
  let (d, rest) := Document.read text
  let a ← value d
  if (Json.skipSpace (rest.getD [])).isEmpty then .ok a else .error .trailingText

end Decoder

end PanelSchema
