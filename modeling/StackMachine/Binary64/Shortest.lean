import StackMachine.Binary64

namespace StackMachine

/-- A decimal `0.d₁d₂… * 10 ^ point` given by its digits; no digits stand for zero. -/
structure Decimal where
  digits : List Nat
  point : Int
  deriving DecidableEq

namespace Decimal

/-- The decimal `n * 10 ^ exponent`, without zeros at the end. -/
def ofNat (n : Nat) (exponent : Int) : Decimal :=
  let digits := (Nat.toDigits 10 n).map fun c => c.toNat - 48
  let significant := (digits.reverse.dropWhile (· == 0)).reverse
  if significant.isEmpty then ⟨[], 0⟩ else ⟨significant, digits.length + exponent⟩

end Decimal

namespace Binary64

/-- The numbers that round to a double, all multiplied by one common `den`. -/
structure Interval where
  low : Nat
  value : Nat
  high : Nat
  den : Nat
  /-- Whether both ends belong to the interval. -/
  closed : Bool

/-- A quarter of a unit of the mantissa is the common measure. Below a power of two the lower neighbour is nearer. -/
def interval (mantissa : Nat) (exponent : Int) : Interval :=
  let below := if mantissa = fullMantissa ∧ minExponent < exponent then 1 else 2
  let (quarter, den) := scaled 1 1 (2 - exponent)
  { low := (4 * mantissa - below) * quarter, value := 4 * mantissa * quarter, high := (4 * mantissa + 2) * quarter,
    den, closed := mantissa % 2 = 0 }

/-- Whether `n * 10 ^ exponent` lies in the interval. -/
def Interval.holds (i : Interval) (n : Nat) (exponent : Int) : Bool :=
  let a := if exponent < 0 then n else n * Nat.pow 10 exponent.natAbs
  let b := if exponent < 0 then Nat.pow 10 exponent.natAbs else 1
  if i.closed then i.low * b ≤ a * i.den && a * i.den ≤ i.high * b
  else i.low * b < a * i.den && a * i.den < i.high * b

/-- The neighbour of the value on the grid of multiples of `10 ^ exponent` that lies in the interval; the nearer one if
both do. -/
def Interval.onGrid? (i : Interval) (exponent : Int) : Option Nat :=
  let num := if exponent < 0 then i.value * Nat.pow 10 exponent.natAbs else i.value
  let den := if exponent < 0 then i.den else i.den * Nat.pow 10 exponent.natAbs
  let down := num / den
  match i.holds down exponent, i.holds (down + 1) exponent with
  | true, true => some (roundedQuotient num den)
  | true, false => some down
  | false, true => some (down + 1)
  | false, false => none

/-- The largest power of ten that is not above the value. -/
def Interval.magnitude (i : Interval) : Int :=
  let guess : Int := (Nat.toDigits 10 i.value).length - (Nat.toDigits 10 i.den).length
  let reached : Bool :=
    if guess < 0 then i.den ≤ i.value * Nat.pow 10 guess.natAbs else i.den * Nat.pow 10 guess.natAbs ≤ i.value
  if reached then guess else guess - 1

/-- The first grid with a hit, among those that give the value `count` digits, `count + 1` digits and so on. -/
def Interval.search (i : Interval) (magnitude : Int) : (grids count : Nat) → Decimal
  | 0, _ => .ofNat 0 0
  | grids + 1, count =>
    let exponent := magnitude - count + 1
    match i.onGrid? exponent with
    | some n => .ofNat n exponent
    | none => i.search magnitude grids (count + 1)

/-- Seventeen digits always suffice. -/
def shortest (mantissa : Nat) (exponent : Int) : Decimal :=
  if mantissa = 0 then ⟨[], 0⟩
  else
    let i := interval mantissa exponent
    i.search i.magnitude 17 1

end Binary64

end StackMachine
