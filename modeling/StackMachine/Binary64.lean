namespace StackMachine

/-- A double, held exactly. There is none for "not a number": where a column holds that, the entry is missing. -/
inductive Binary64 where
  /-- The number `mantissa * 2 ^ exponent`, negated if `negative`. -/
  | finite (negative : Bool) (mantissa : Nat) (exponent : Int)
  | infinite (negative : Bool)
  deriving DecidableEq

namespace Binary64

/-- The smallest mantissa of full length, `2 ^ 52`. -/
def fullMantissa : Nat := 0x10000000000000

/-- The smallest exponent; mantissas below the full length have it. -/
def minExponent : Int := -1074

def maxExponent : Int := 971

/-- The fraction `num / den` divided by `2 ^ exponent`, again as a fraction. -/
def scaled (num den : Nat) (exponent : Int) : Nat × Nat :=
  if exponent < 0 then (num * Nat.pow 2 exponent.natAbs, den) else (num, den * Nat.pow 2 exponent.natAbs)

/-- The quotient rounded to the nearest whole number, a half to the even one. -/
def roundedQuotient (num den : Nat) : Nat :=
  let q := num / den
  let twice := 2 * (num % den)
  if den < twice ∨ (twice = den ∧ q % 2 = 1) then q + 1 else q

/-- The exponent for which the quotient has 53 binary digits, as far as exponents reach. -/
def exponentFor (num den : Nat) : Int :=
  let guess : Int := (num.log2 : Int) - den.log2 - 53
  let (a, b) := scaled num den guess
  max minExponent (if 2 * fullMantissa ≤ a / b then guess + 1 else guess)

/-- The double nearest to a fraction, unless it is too large. -/
def ofRatio? (negative : Bool) (num den : Nat) : Option Binary64 :=
  if num = 0 then some (.finite negative 0 minExponent)
  else
    let exponent := exponentFor num den
    let (a, b) := scaled num den exponent
    let mantissa := roundedQuotient a b
    let (mantissa, exponent) :=
      if mantissa = 2 * fullMantissa then (fullMantissa, exponent + 1) else (mantissa, exponent)
    if maxExponent < exponent then none else some (.finite negative mantissa exponent)

/-- The double nearest to `digits * 10 ^ exponent`, unless it is too large. Far from the range of doubles the answer
does not depend on the digits, so no large power is computed. -/
def ofDecimal? (negative : Bool) (digits : Nat) (exponent : Int) : Option Binary64 :=
  let size : Int := exponent + (Nat.toDigits 10 digits).length
  if digits = 0 ∨ size < -400 then some (.finite negative 0 minExponent)
  else if 400 < size then none
  else if exponent < 0 then ofRatio? negative digits (Nat.pow 10 exponent.natAbs)
  else ofRatio? negative (digits * Nat.pow 10 exponent.natAbs) 1

/-- The product of two finite numbers, unless it is too large. -/
def product? : Binary64 → Binary64 → Option Binary64
  | .finite n a e, .finite m b f =>
    let (num, den) := scaled (a * b) 1 (-(e + f))
    ofRatio? (n != m) num den
  | _, _ => none

/-- The whole part of a finite number, toward zero. -/
def truncated? : Binary64 → Option Int
  | .infinite _ => none
  | .finite negative mantissa exponent =>
    let n : Nat := if exponent < 0 then mantissa / Nat.pow 2 exponent.natAbs else mantissa * Nat.pow 2 exponent.natAbs
    some (if negative then -n else n)

end Binary64

end StackMachine
