import PanelSchema.Number.Exact

/-!
Floats and decimal text: the fewest digits that read back, the ways of laying
them out, and reading.
-/

namespace PanelSchema

/-- `d.ddd * 10 ^ exponent`, the digits being those of `digits`. -/
structure Decimal where
  digits : List Char
  exponent : Int
deriving DecidableEq, Repr

namespace Decimal

/-- The numbers strictly between `lo / den` and `hi / den`, and the ends too if
`closed`; these are the numbers that read as the one float `mid / den`. -/
structure Interval where
  lo : Nat
  mid : Nat
  hi : Nat
  den : Nat
  closed : Bool

/-- The reals that round to `mantissa * 2 ^ exponent`. The gap below a power of
two is half the gap above it. -/
def Interval.ofFinite (mantissa : Nat) (exponent : Int) : Interval :=
  let below := if mantissa = 0x10000000000000 ∧ -1074 < exponent then 1 else 2
  let scale := Nat.pow 2 exponent.toNat
  { lo := (4 * mantissa - below) * scale
    mid := 4 * mantissa * scale
    hi := (4 * mantissa + 2) * scale
    den := 4 * Nat.pow 2 (-exponent).toNat
    closed := mantissa % 2 = 0 }

/-- Whether `n * num / den` lies in the interval. -/
def Interval.holds (i : Interval) (n num den : Nat) : Bool :=
  let x := n * num * i.den
  if i.closed then
    i.lo * den ≤ x && x ≤ i.hi * den
  else
    i.lo * den < x && x < i.hi * den

/-- The multiple of `10 ^ power` that reads as the float, if one does; of two,
the nearer, and halfway the greater. -/
def Interval.multiple? (i : Interval) (power : Int) : Option Nat :=
  let num := Nat.pow 10 power.toNat
  let den := Nat.pow 10 (-power).toNat
  let below := i.mid * den / (num * i.den)
  let above := below + 1
  let holdsBelow := below != 0 && i.holds below num den
  let holdsAbove := i.holds above num den
  match holdsBelow, holdsAbove with
  | true, true =>
    let mid := i.mid * den
    if mid - below * num * i.den < above * num * i.den - mid then some below
    else some above
  | true, false => some below
  | false, true => some above
  | false, false => none

/-- The power of ten of the leading digit of `mid / den`. -/
def Interval.leading (i : Interval) : Int :=
  if i.den ≤ i.mid then
    ((Nat.toDigits 10 (i.mid / i.den)).length : Int) - 1
  else
    let quotient := (i.den + i.mid - 1) / i.mid
    Int.negOfNat (Nat.toDigits 10 (quotient - 1)).length

private def dropTrailingZeros (ds : List Char) : List Char :=
  (ds.reverse.dropWhile (· == '0')).reverse

def ofMultiple (n : Nat) (power : Int) : Decimal :=
  let ds := Nat.toDigits 10 n
  { digits := dropTrailingZeros ds, exponent := power + (ds.length : Int) - 1 }

/-- Tries the grids of `power`, `power - 1`, …; seventeen digits always do. -/
def search (i : Interval) : Nat → Int → Decimal
  | 0, power =>
    ofMultiple (i.mid * Nat.pow 10 (-power).toNat / (i.den * Nat.pow 10 power.toNat)) power
  | fuel + 1, power =>
    match i.multiple? power with
    | some n => ofMultiple n power
    | none => search i fuel (power - 1)

/-- The fewest digits that read back as the float with this absolute value. -/
def shortest (mantissa : Nat) (exponent : Int) : Decimal :=
  if mantissa = 0 then
    { digits := ['0'], exponent := 0 }
  else
    let i := Interval.ofFinite mantissa exponent
    search i 18 i.leading

end Decimal

/-- How the digits of a float are laid out. -/
structure FloatLayout where
  /-- The exponents written without a power of ten. -/
  plain : Int → Bool
  /-- Whether an integer keeps a point and a zero. -/
  keepsPoint : Bool
  /-- Whether a positive power of ten has a sign. -/
  signsPower : Bool

namespace FloatLayout

def digitsText (l : FloatLayout) (d : Decimal) : String :=
  if l.plain d.exponent then
    if d.exponent < 0 then
      "0." ++ String.ofList (List.replicate (-d.exponent - 1).toNat '0' ++ d.digits)
    else
      let width := d.exponent.toNat + 1
      let whole := d.digits.take width ++ List.replicate (width - d.digits.length) '0'
      match d.digits.drop width with
      | [] => String.ofList whole ++ (if l.keepsPoint then ".0" else "")
      | part => String.ofList whole ++ "." ++ String.ofList part
  else
    let sign := if l.signsPower && 0 ≤ d.exponent then "+" else ""
    let lead :=
      match d.digits with
      | [] => "0"
      | [x] => x.toString
      | x :: rest => x.toString ++ "." ++ String.ofList rest
    lead ++ "e" ++ sign ++ toString d.exponent

/-- Minus zero keeps its sign. -/
def text (l : FloatLayout) (x : Float) : String :=
  match Quantity.ofFloat x with
  | .undefined => "NaN"
  | .infinite negative => if negative then "-inf" else "inf"
  | .finite m e =>
    let body := l.digitsText (Decimal.shortest m.natAbs e)
    if x.toBits.toNat ≥ 0x8000000000000000 then "-" ++ body else body

/-- As in a JSON document. -/
def json : FloatLayout where
  plain e := -5 ≤ e && e ≤ 15
  keepsPoint := true
  signsPower := true

/-- As shown to a reader: never with a power of ten. -/
def shown : FloatLayout where
  plain _ := true
  keepsPoint := false
  signsPower := false

/-- As in a dump of a syntax tree. -/
def dump : FloatLayout where
  plain e := -4 ≤ e && e ≤ 15
  keepsPoint := true
  signsPower := false

end FloatLayout

def digitsValue (base : Nat) (ds : List Char) : Nat :=
  ds.foldl (fun n c => n * base + c.toNat - '0'.toNat) 0

/-- The float nearest to `mantissa * 10 ^ power`. Powers far outside the range
of floats are decided by the number of digits alone. -/
def floatOfDecimal (mantissa : Nat) (power : Int) : Float :=
  let size : Int := (Nat.toDigits 10 mantissa).length + power
  if mantissa = 0 ∨ size < -400 then 0.0
  else if 400 < size then Float.ofBits 0x7FF0000000000000
  else Float.ofScientific mantissa (power < 0) power.natAbs

/-- Whether a minus sign comes first, and what follows the sign. -/
def splitSign : List Char → Bool × List Char
  | '+' :: rest => (false, rest)
  | '-' :: rest => (true, rest)
  | cs => (false, cs)

/-- The power of ten behind a decimal number, which may be left out. -/
def readPower? (cs : List Char) : Option Int :=
  match cs with
  | [] => some 0
  | c :: tail =>
    if c = 'e' ∨ c = 'E' then
      let (negative, ds) := splitSign tail
      if ds.isEmpty || !ds.all Char.isDigit then none
      else
        let power : Int := digitsValue 10 ds
        some (if negative then -power else power)
    else none

/-- Digits with an optional fraction and exponent; at least one digit stands
before the exponent. -/
def readUnsigned? (cs : List Char) : Option Float :=
  let whole := cs.takeWhile Char.isDigit
  let rest := cs.dropWhile Char.isDigit
  let (part, rest) :=
    match rest with
    | '.' :: tail => (tail.takeWhile Char.isDigit, tail.dropWhile Char.isDigit)
    | _ => ([], rest)
  if whole.isEmpty && part.isEmpty then none
  else
    let mantissa := digitsValue 10 (whole ++ part)
    (readPower? rest).map fun power => floatOfDecimal mantissa (power - part.length)

/-- A decimal number with an optional sign, an infinity or a NaN, the last two
in any case. -/
def readFloat? (cs : List Char) : Option Float :=
  let (negative, body) := splitSign cs
  let lower := String.ofList (body.map Char.toLower)
  let value :=
    if lower = "inf" ∨ lower = "infinity" then some (Float.ofBits 0x7FF0000000000000)
    else if lower = "nan" then some (Float.ofBits 0x7FF8000000000000)
    else readUnsigned? body
  value.map fun x => if negative then -x else x

end PanelSchema
