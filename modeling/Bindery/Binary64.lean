/-
Binary floating-point numbers of 64 bits, in exact arithmetic: reading a decimal gives the
nearest number, a tie going to the even one, and writing a number gives the fewest decimal
digits that read back as it, the nearest of those when there is a choice.
-/
import Bindery.Bytes

namespace Bindery

/-- The finite number `mantissa * 2 ^ exponent`, without its sign. -/
structure Binary64 where
  mantissa : Nat
  exponent : Int
  deriving DecidableEq, Repr

/-- A decimal `digits * 10 ^ exponent`. -/
structure Decimal where
  digits : Nat
  exponent : Int
  deriving DecidableEq, Repr

/-- The decimal without an exponent: a point, when there is one, has digits on both sides. -/
def Decimal.positional (d : Decimal) : Bytes :=
  let ds := Bytes.decimal d.digits
  if 0 ≤ d.exponent then ds ++ List.replicate d.exponent.toNat 48
  else
    let places := (-d.exponent).toNat
    let ds := List.replicate (places + 1 - ds.length) 48 ++ ds
    ds.take (ds.length - places) ++ [46] ++ ds.drop (ds.length - places)

namespace Binary64

/-- The least exponent a number may have. -/
def minExponent : Int := -1074

/-- The greatest exponent a number may have. -/
def maxExponent : Int := 971

/-- The mantissas below this many have room to spare. -/
def hidden : Nat := 0x10000000000000

def zero : Binary64 := ⟨0, minExponent⟩

/-- A quotient to the nearest natural number, a tie going to the even one. -/
def roundQuotient (n d : Nat) : Nat :=
  let q := n / d
  let r := n % d
  if 2 * r < d ∨ (2 * r = d ∧ q % 2 = 0) then q else q + 1

/-- The fraction `n / (d * b ^ e)`. -/
def scaleDown (b : Nat) (n d : Nat) (e : Int) : Nat × Nat :=
  if 0 ≤ e then (n, d * Nat.pow b e.toNat) else (n * Nat.pow b (-e).toNat, d)

/-- The number nearest to a fraction, nothing when there is none that large. -/
def ofFraction (n d : Nat) : Option Binary64 :=
  if n = 0 then some zero
  else
    let guess : Int := (n.log2 : Int) - d.log2
    let (a, b) := scaleDown 2 n d guess
    let log := if b ≤ a then guess else guess - 1
    let e := max (log - 52) minExponent
    let (a, b) := scaleDown 2 n d e
    let m := roundQuotient a b
    let (m, e) := if m = 2 * hidden then (hidden, e + 1) else (m, e)
    if maxExponent < e then none else some ⟨m, e⟩

/-- The number nearest to a decimal, nothing when there is none that large. Decimals far
outside the range need no arithmetic. -/
def ofDecimal (d : Decimal) : Option Binary64 :=
  let size : Int := (Bytes.decimal d.digits).length + d.exponent
  if d.digits = 0 ∨ size < -340 then some zero
  else if 320 < size then none
  else
    let (n, q) := scaleDown 10 d.digits 1 (-d.exponent)
    ofFraction n q

/-- The decimal exponent of the first digit of a fraction below one; `k` is how far it has
been looked for. -/
def leadingBelowOne (n d : Nat) : Nat → Nat → Int
  | 0, k => -k
  | fuel + 1, k => if d ≤ n * Nat.pow 10 k then -k else leadingBelowOne n d fuel (k + 1)

/-- The decimal exponent of the first digit of a fraction other than zero. -/
def leading (n d : Nat) : Int :=
  if d ≤ n then (Bytes.decimal (n / d)).length - 1 else leadingBelowOne n d 400 1

/-- The decimals that read back as a number lie between two fractions over `den`, `low` and
`high`, both among them when `closed`. -/
structure Reach where
  low : Nat
  value : Nat
  high : Nat
  den : Nat
  closed : Bool

/-- The reach of a number. The number below a power of two is nearer than the one above. -/
def reach (x : Binary64) : Reach :=
  let below := if x.mantissa = hidden ∧ minExponent < x.exponent then 1 else 2
  let (value, den) := scaleDown 2 (4 * x.mantissa) 1 (2 - x.exponent)
  let unit := (scaleDown 2 1 1 (2 - x.exponent)).1
  { low := value - below * unit, value, high := value + 2 * unit, den, closed := x.mantissa % 2 = 0 }

/-- The fraction `n / d` is within reach. -/
def Reach.holds (r : Reach) (n d : Nat) : Bool :=
  let a := r.low * d
  let b := n * r.den
  let c := r.high * d
  if r.closed then a ≤ b && b ≤ c else a < b && b < c

/-- How far the fraction `n / d` is from the number, over the product of the denominators. -/
def Reach.distance (r : Reach) (n d : Nat) : Nat :=
  let a := r.value * d
  let b := n * r.den
  (a - b) + (b - a)

/-- The nearest decimal within reach that is a multiple of a power of ten. -/
def Reach.onGrid (r : Reach) (e : Int) : Option Decimal :=
  let (n, d) := scaleDown 10 r.value r.den e
  let below := n / d
  let fraction (k : Nat) := scaleDown 10 k 1 (-e)
  let fits (k : Nat) := let f := fraction k; r.holds f.1 f.2
  let far (k : Nat) := let f := fraction k; r.distance f.1 f.2
  if fits below && (!fits (below + 1) || far below ≤ far (below + 1)) then some ⟨below, e⟩
  else if fits (below + 1) then some ⟨below + 1, e⟩
  else none

/-- Tries the grids of `e`, `e - 1` and so on. -/
def Reach.firstGrid (r : Reach) : Nat → Int → Option Decimal
  | 0, _ => none
  | fuel + 1, e => (r.onGrid e).orElse fun _ => r.firstGrid fuel (e - 1)

/-- The shortest decimal that reads back as a number. Seventeen digits are always enough. -/
def shortest (x : Binary64) : Decimal :=
  if x.mantissa = 0 then ⟨0, 0⟩
  else
    let r := x.reach
    match r.firstGrid 17 (leading r.value r.den) with
    | some d => if d.digits % 10 = 0 then ⟨d.digits / 10, d.exponent + 1⟩ else d
    | none => ⟨0, 0⟩

end Binary64

end Bindery
