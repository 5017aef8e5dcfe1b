import PanelSchema.Number.Decimal

/-! Values of number, text and character literals. -/

namespace PanelSchema.Syntax

inductive NumberValue where
  | integer (value : Int)
  | float (value : Float)

def dropEnd (p : Char → Bool) (cs : List Char) : List Char :=
  (cs.reverse.dropWhile p).reverse

def hexDigit? (c : Char) : Option Nat :=
  if c.isDigit then some (c.toNat - '0'.toNat)
  else if 'a' ≤ c ∧ c ≤ 'f' then some (c.toNat - 'a'.toNat + 10)
  else if 'A' ≤ c ∧ c ≤ 'F' then some (c.toNat - 'A'.toNat + 10)
  else none

def inRange? (n : Nat) : Option Int :=
  if (n : Int) ≤ greatestInt then some n else none

/-- The value of digits to the base sixteen. -/
def hexValue? (ds : List Char) : Option Nat :=
  ds.foldlM (fun n c => (hexDigit? c).map (n * 16 + ·)) 0

/-- Digits to the base sixteen, if they are no more than an integer holds. -/
def hexInteger? (ds : List Char) : Option Int :=
  if ds.isEmpty then none else (hexValue? ds).bind inRange?

/-- Decimal digits, if they are no more than an integer holds. -/
def decimalInteger? (ds : List Char) : Option Int :=
  if ds.isEmpty || !ds.all Char.isDigit then none
  else inRange? (digitsValue 10 ds)

/-- Integers must fit; floats round. Letters behind the digits are a suffix,
of which `f`, `d` and `m` make a float. -/
def numberValue? (cs : List Char) : Option NumberValue :=
  match cs with
  | '0' :: 'x' :: rest | '0' :: 'X' :: rest =>
    let ds := dropEnd (fun c => c == 'u' || c == 'U' || c == 'l' || c == 'L') rest
    (hexInteger? ds).map .integer
  | _ =>
    let ds := dropEnd Char.isAlpha cs
    let ending := cs.drop ds.length
    let isFloat :=
      ds.any (fun c => c == '.' || c == 'e' || c == 'E')
        || ending.any (fun c => "fFdDmM".toList.contains c)
    if isFloat then (readFloat? ds).map .float else (decimalInteger? ds).map .integer

/-- Backslash escapes. One that means nothing stands for its own character,
and a lone backslash at the end for itself. -/
def unescape : List Char → List Char
  | [] => []
  | ['\\'] => ['\\']
  | '\\' :: c :: rest =>
    let meant :=
      match c with
      | 'n' => '\n'
      | 't' => '\t'
      | 'r' => '\r'
      | '0' => '\x00'
      | other => other
    meant :: unescape rest
  | c :: rest => c :: unescape rest

end PanelSchema.Syntax
