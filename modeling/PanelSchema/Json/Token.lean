import PanelSchema.Json.Fault
import PanelSchema.Number.Decimal

/-!
The scalars of a JSON text: blanks, words, numbers and strings. Each reader
takes the text from its place on and gives the rest. Beside a reader stands
the one that only skips: it checks the form but not the meaning, so a number
too large for a float or half a surrogate pair passes it.
-/

namespace PanelSchema.Json

/-- A value with the text after it. -/
abbrev Rest (α : Type) := α × List Char

def isSpace (c : Char) : Bool :=
  c = ' ' || c = '\n' || c = '\t' || c = '\r'

def skipSpace (cs : List Char) : List Char :=
  cs.dropWhile isSpace

/-- The rest of a word such as `null` whose first letter has been seen. -/
def readWord : List Char → List Char → Except JsonFault (List Char)
  | [], cs => .ok cs
  | _ :: _, [] => .error .endInValue
  | w :: ws, c :: cs => if w = c then readWord ws cs else .error .expectedWord

/-! ### Numbers -/

inductive Number where
  | int (n : Int)
  | float (x : Float)
deriving Repr

def greatestSignificand : Nat := 0xFFFFFFFFFFFFFFFF

/-- Takes digits into a number as long as it fits 64 bits; gives it with the
number of digits taken and the digits left. -/
def takeDigits : Nat → Nat → List Char → Nat × Nat × List Char
  | n, count, [] => (n, count, [])
  | n, count, c :: cs =>
    let n' := n * 10 + (c.toNat - '0'.toNat)
    if greatestSignificand < n' then (n, count, c :: cs) else takeDigits n' (count + 1) cs

/-- `f * 10 ^ power` by one multiplication or division, after as many divisions
by the greatest power of ten as a very negative power needs. Every step rounds. -/
def scale : Nat → Float → Int → Except JsonFault Float
  | 0, f, _ => .ok f
  | steps + 1, f, power =>
    if power.natAbs ≤ 308 then
      let unit := floatOfDecimal 1 power.natAbs
      if 0 ≤ power then
        let product := f * unit
        match Quantity.ofFloat product with
        | .finite _ _ => .ok product
        | _ => .error .numberTooLarge
      else .ok (f / unit)
    else if f == 0.0 then .ok f
    else if 0 ≤ power then .error .numberTooLarge
    else scale steps (f / floatOfDecimal 1 308) (power + 308)

def signed (negative : Bool) (x : Float) : Float :=
  if negative then -x else x

/-- A power below a few hundred of those of ten has made any number zero, so
eight steps are more than enough. -/
def floatOfParts (negative : Bool) (significand : Nat) (power : Int) :
    Except JsonFault Float :=
  (scale 8 (floatOfDecimal significand 0) power).map (signed negative)

/-- Powers from here on are not counted: the number is zero or too large. -/
def greatestPower : Nat := 0x7FFFFFFF

/-- Whether a power has a minus, with the text after its sign. -/
def powerSign : List Char → Rest Bool
  | '+' :: rest => (false, rest)
  | '-' :: rest => (true, rest)
  | cs => (false, cs)

/-- The text after the mark of an exponent. -/
def readPower (negative : Bool) (significand : Nat) (power : Int) (cs : List Char) :
    Except JsonFault (Rest Number) := do
  let (down, cs) := powerSign cs
  match cs with
  | [] => .error .endInValue
  | c :: _ =>
    if !c.isDigit then .error .badNumber
    else
      let shift := digitsValue 10 (cs.takeWhile Char.isDigit)
      let rest := cs.dropWhile Char.isDigit
      if greatestPower < shift then
        if significand ≠ 0 ∧ !down then .error .numberTooLarge
        else .ok (.float (signed negative 0.0), rest)
      else
        let x ← floatOfParts negative significand
          (if down then power - shift else power + shift)
        .ok (.float x, rest)

def readPower? (negative : Bool) (significand : Nat) (power : Int) (cs : List Char) :
    Except JsonFault (Rest Number) := do
  match cs with
  | c :: rest =>
    if c = 'e' ∨ c = 'E' then readPower negative significand power rest
    else
      let x ← floatOfParts negative significand power
      .ok (.float x, cs)
  | [] =>
    let x ← floatOfParts negative significand power
    .ok (.float x, cs)

/-- The text after the point. -/
def readFraction (negative : Bool) (significand : Nat) (power : Int) (cs : List Char) :
    Except JsonFault (Rest Number) :=
  let ds := cs.takeWhile Char.isDigit
  let rest := cs.dropWhile Char.isDigit
  if ds.isEmpty then .error (if rest.isEmpty then .endInValue else .badNumber)
  else
    let (n, count, _) := takeDigits significand 0 ds
    readPower? negative n (power - count) rest

/-- An integer stays one while it fits 64 bits, except that minus zero is a
float. -/
def readUnsigned (negative : Bool) (cs : List Char) : Except JsonFault (Rest Number) :=
  match cs with
  | [] => .error .endInValue
  | c :: tail =>
    if !c.isDigit then .error .badNumber
    else if c = '0' ∧ (tail.head?.map Char.isDigit).getD false then .error .badNumber
    else
      let (n, _, left) := takeDigits 0 0 (cs.takeWhile Char.isDigit)
      let rest := cs.dropWhile Char.isDigit
      let power : Int := left.length
      match rest with
      | '.' :: part => readFraction negative n power part
      | _ =>
        let exact := left.isEmpty && !(rest.head? == some 'e' || rest.head? == some 'E')
        if !exact then readPower? negative n power rest
        else if !negative then .ok (.int n, rest)
        else if n = 0 ∨ 0x8000000000000000 < n then .ok (.float (-floatOfDecimal n 0), rest)
        else .ok (.int (-n), rest)

def readNumber : List Char → Except JsonFault (Rest Number)
  | '-' :: rest => readUnsigned true rest
  | cs => readUnsigned false cs

def skipPower (cs : List Char) : Except JsonFault (List Char) :=
  let cs := (powerSign cs).2
  if (cs.takeWhile Char.isDigit).isEmpty then .error .badNumber
  else .ok (cs.dropWhile Char.isDigit)

def skipPower? : List Char → Except JsonFault (List Char)
  | 'e' :: rest => skipPower rest
  | 'E' :: rest => skipPower rest
  | cs => .ok cs

def skipNumber (cs : List Char) : Except JsonFault (List Char) :=
  let cs := if cs.head? = some '-' then cs.tail else cs
  let ds := cs.takeWhile Char.isDigit
  let rest := cs.dropWhile Char.isDigit
  if ds.isEmpty || (ds.head? == some '0' && ds.length != 1) then .error .badNumber
  else
    match rest with
    | '.' :: part =>
      if (part.takeWhile Char.isDigit).isEmpty then .error .badNumber
      else skipPower? (part.dropWhile Char.isDigit)
    | _ => skipPower? rest

/-! ### Strings -/

def hexValue? (c : Char) : Option Nat :=
  if '0' ≤ c ∧ c ≤ '9' then some (c.toNat - '0'.toNat)
  else if 'a' ≤ c ∧ c ≤ 'f' then some (c.toNat - 'a'.toNat + 10)
  else if 'A' ≤ c ∧ c ≤ 'F' then some (c.toNat - 'A'.toNat + 10)
  else none

/-- Four hexadecimal digits. A text with fewer than four bytes left ends too
early, whatever they are. -/
def readHex (cs : List Char) : Except JsonFault (Rest Nat) :=
  if (cs.take 4).foldl (· + ·.utf8Size) 0 < 4 then .error .endInString
  else
    match (cs.take 4).mapM hexValue? with
    | some ds => .ok (ds.foldl (fun n d => n * 16 + d) 0, cs.drop 4)
    | none => .error .badEscape

def simpleEscape? : Char → Option Char
  | '"' => some '"'
  | '\\' => some '\\'
  | '/' => some '/'
  | 'b' => some '\x08'
  | 'f' => some '\x0c'
  | 'n' => some '\n'
  | 'r' => some '\r'
  | 't' => some '\t'
  | _ => none

/-- The second half of a surrogate pair. -/
def readSecondHalf (first : Nat) (cs : List Char) : Except JsonFault (Rest Char) := do
  match cs with
  | [] => .error .endInString
  | '\\' :: [] => .error .endInString
  | '\\' :: 'u' :: rest =>
    let (second, rest) ← readHex rest
    if second < 0xDC00 ∨ 0xDFFF < second then .error .loneSurrogate
    else .ok (Char.ofNat (0x10000 + (first - 0xD800) * 0x400 + (second - 0xDC00)), rest)
  | _ => .error .unfinishedPair

/-- The text after a backslash. -/
def readEscape (cs : List Char) : Except JsonFault (Rest Char) := do
  match cs with
  | [] => .error .endInString
  | 'u' :: rest =>
    let (code, rest) ← readHex rest
    if 0xDC00 ≤ code ∧ code ≤ 0xDFFF then .error .loneSurrogate
    else if 0xD800 ≤ code ∧ code ≤ 0xDBFF then readSecondHalf code rest
    else .ok (Char.ofNat code, rest)
  | c :: rest =>
    match simpleEscape? c with
    | some x => .ok (x, rest)
    | none => .error .badEscape

/-- The text after the opening quote, in at most `fuel` steps. -/
def readStringWithin : Nat → List Char → Except JsonFault (Rest (List Char))
  | 0, _ => .error .endInString
  | _ + 1, [] => .error .endInString
  | _ + 1, '"' :: rest => .ok ([], rest)
  | fuel + 1, '\\' :: rest => do
    let (x, rest) ← readEscape rest
    let (xs, rest) ← readStringWithin fuel rest
    .ok (x :: xs, rest)
  | fuel + 1, c :: rest =>
    if c.toNat < 0x20 then .error .controlCharacter
    else do
      let (xs, rest) ← readStringWithin fuel rest
      .ok (c :: xs, rest)

/-- Every step takes a character. -/
def readString (cs : List Char) : Except JsonFault (Rest String) :=
  (readStringWithin (cs.length + 1) cs).map fun (xs, rest) => (String.ofList xs, rest)

def skipEscape : List Char → Except JsonFault (List Char)
  | [] => .error .endInString
  | 'u' :: rest => (readHex rest).map (·.2)
  | c :: rest => if (simpleEscape? c).isSome then .ok rest else .error .badEscape

def skipStringWithin : Nat → List Char → Except JsonFault (List Char)
  | 0, _ => .error .endInString
  | _ + 1, [] => .error .endInString
  | _ + 1, '"' :: rest => .ok rest
  | fuel + 1, '\\' :: rest => skipEscape rest >>= skipStringWithin fuel
  | fuel + 1, c :: rest =>
    if c.toNat < 0x20 then .error .controlCharacter else skipStringWithin fuel rest

def skipString (cs : List Char) : Except JsonFault (List Char) :=
  skipStringWithin (cs.length + 1) cs

end PanelSchema.Json
