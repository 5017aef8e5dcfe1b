/-!
The numbers behind floats. A finite float is an integer times a power of two,
so it is compared and cut to an integer without rounding; an integer meets a
float after being rounded to the 53 bits a float has.
-/

namespace PanelSchema

/-- The range of the integers a model holds. -/
def leastInt : Int := -0x8000000000000000

def greatestInt : Int := 0x7FFFFFFFFFFFFFFF

def clampInt (n : Int) : Int :=
  max leastInt (min greatestInt n)

/-- The successor, except that the greatest integer is its own. -/
def nextInt (n : Int) : Int :=
  clampInt (n + 1)

/-- The natural number with at most 53 significant bits that is nearest to
`n`; halfway, the one with the even last bit. -/
def roundNat (n : Nat) : Nat :=
  let excess := n.log2 + 1 - 53
  let unit := Nat.pow 2 excess
  let low := n / unit
  let rest := n % unit
  if 2 * rest < unit then low * unit
  else if 2 * rest = unit then (low + low % 2) * unit
  else (low + 1) * unit

def roundInt : Int → Int
  | .ofNat n => roundNat n
  | .negSucc n => -(roundNat (n + 1) : Nat)

/-- Nothing is lost up to `2 ^ 53`. -/
theorem roundNat_of_lt {n : Nat} (h : n < 0x20000000000000) : roundNat n = n := by
  have width : n.log2 + 1 - 53 = 0 := by
    rcases Nat.eq_zero_or_pos n with rfl | pos
    · simp
    · have := (Nat.log2_lt (k := 53) (by omega)).2 h
      omega
  simp [roundNat, width, Nat.mod_one]

/-- What a float stands for. -/
inductive Quantity where
  /-- `mantissa * 2 ^ exponent` -/
  | finite (mantissa exponent : Int)
  | infinite (negative : Bool)
  | undefined
deriving DecidableEq, Repr

namespace Quantity

def ofInt (n : Int) : Quantity :=
  .finite (roundInt n) 0

def ofFloat (x : Float) : Quantity :=
  let bits := x.toBits.toNat
  let negative := bits ≥ 0x8000000000000000
  let power : Nat := bits / 0x10000000000000 % 0x800
  let fraction : Nat := bits % 0x10000000000000
  if power = 2047 then
    if fraction = 0 then .infinite negative else .undefined
  else
    let mantissa : Int := if power = 0 then fraction else fraction + 0x10000000000000
    let exponent : Int := if power = 0 then -1074 else (power : Int) - 1075
    .finite (if negative then -mantissa else mantissa) exponent

/-- The two mantissas brought to the smaller of the exponents. -/
private def align (m₁ e₁ m₂ e₂ : Int) : Int × Int :=
  let e := min e₁ e₂
  (m₁ * Int.pow 2 (e₁ - e).toNat, m₂ * Int.pow 2 (e₂ - e).toNat)

/-- No comparison with an undefined quantity holds. -/
def lt : Quantity → Quantity → Bool
  | .finite m₁ e₁, .finite m₂ e₂ =>
    let (a, b) := align m₁ e₁ m₂ e₂
    a < b
  | .finite _ _, .infinite negative => !negative
  | .infinite negative, .finite _ _ => negative
  | .infinite n₁, .infinite n₂ => n₁ && !n₂
  | _, _ => false

def le : Quantity → Quantity → Bool
  | .finite m₁ e₁, .finite m₂ e₂ =>
    let (a, b) := align m₁ e₁ m₂ e₂
    a ≤ b
  | .finite _ _, .infinite negative => !negative
  | .infinite negative, .finite _ _ => negative
  | .infinite n₁, .infinite n₂ => n₁ || !n₂
  | _, _ => false

def neg : Quantity → Quantity
  | .finite m e => .finite (-m) e
  | .infinite negative => .infinite (!negative)
  | .undefined => .undefined

/-- The difference, without rounding. -/
def sub : Quantity → Quantity → Quantity
  | .finite m₁ e₁, .finite m₂ e₂ =>
    let (a, b) := align m₁ e₁ m₂ e₂
    .finite (a - b) (min e₁ e₂)
  | .finite _ _, .infinite negative => .infinite (!negative)
  | .infinite negative, .finite _ _ => .infinite negative
  | .infinite n₁, .infinite n₂ => if n₁ = n₂ then .undefined else .infinite n₁
  | _, _ => .undefined

def abs : Quantity → Quantity
  | .finite m e => .finite m.natAbs e
  | .infinite _ => .infinite false
  | .undefined => .undefined

/-- The greatest integer not above a finite quantity. -/
def floor? : Quantity → Option Int
  | .finite m e =>
    if 0 ≤ e then some (m * Int.pow 2 e.toNat) else some (m.fdiv (Int.pow 2 (-e).toNat))
  | _ => none

/-- The least integer not below a finite quantity. -/
def ceil? (q : Quantity) : Option Int :=
  q.neg.floor?.map (- ·)

/-- The integer a finite quantity is, if it is one. -/
def integer? (q : Quantity) : Option Int :=
  match q.floor?, q.ceil? with
  | some lo, some hi => if lo = hi then some lo else none
  | _, _ => none

/-- Cut toward zero and brought into range; zero for the undefined. -/
def toInt : Quantity → Int
  | .finite m e =>
    clampInt (if 0 ≤ e then m * Int.pow 2 e.toNat else m.tdiv (Int.pow 2 (-e).toNat))
  | .infinite negative => if negative then leastInt else greatestInt
  | .undefined => 0

end Quantity

/-- Cut toward zero and brought into range; zero if not a number. -/
def floatToInt (x : Float) : Int :=
  (Quantity.ofFloat x).toInt

end PanelSchema
