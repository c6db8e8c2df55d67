import StackMachine.Binary64
import StackMachine.Binary64.Read
import StackMachine.Text.Number

namespace StackMachine

structure Duration where
  nanoseconds : Int64
  deriving DecidableEq

namespace Duration

def zero : Duration := ⟨0⟩

def ofMilliseconds (n : Nat) : Duration := ⟨Int64.ofNat (n * 1000000)⟩

def ofSeconds (n : Nat) : Duration := ofMilliseconds (n * 1000)

/-- A count of `10 ^ places` parts of a unit: the whole units, then a fraction without zeros at its end. -/
def partsText (places n : Nat) : Bytes :=
  let fraction := paddedLeft (byte '0') places (decimalNat (n % Nat.pow 10 places))
  let shown := (fraction.reverse.dropWhile (· == byte '0')).reverse
  decimalNat (n / Nat.pow 10 places) ++
    if n % Nat.pow 10 places = 0 then [] else byte '.' :: shown

/-- The length of a span, without its sign. -/
def magnitudeText (n : Nat) : Bytes :=
  let second := 1000000000
  if n = 0 then utf8 "0s"
  else if n < 1000 then decimalNat n ++ utf8 "ns"
  else if n < 1000000 then partsText 3 n ++ utf8 "µs"
  else if n < second then partsText 6 n ++ utf8 "ms"
  else
    let minutes := n / second / 60
    (if 60 ≤ minutes then decimalNat (minutes / 60) ++ utf8 "h" else []) ++
    (if 0 < minutes then decimalNat (minutes % 60) ++ utf8 "m" else []) ++
    partsText 9 (n % (60 * second)) ++ utf8 "s"

def text (d : Duration) : Bytes :=
  (if d.nanoseconds < 0 then [byte '-'] else []) ++ magnitudeText d.nanoseconds.toInt.natAbs

/-- The nanoseconds of a unit. -/
def unit? (name : Bytes) : Option Nat :=
  if name = utf8 "ns" then some 1
  else if name = utf8 "us" ∨ name = utf8 "µs" ∨ name = utf8 "μs" then some 1000
  else if name = utf8 "ms" then some 1000000
  else if name = utf8 "s" then some 1000000000
  else if name = utf8 "m" then some (60 * 1000000000)
  else if name = utf8 "h" then some (3600 * 1000000000)
  else none

/-- The largest length of a span below zero. -/
def bound : Nat := wordBound

/-- The digits of a fraction that are looked at, and how many they are: as long as they fit 63 bits. -/
def fractionDigits : (seen count : Nat) → Bytes → Nat × Nat
  | seen, count, [] => (seen, count)
  | seen, count, c :: rest =>
    let next := seen * 10 + (c.toNat - 48)
    if (bound - 1) / 10 < seen ∨ bound < next then (seen, count) else fractionDigits next (count + 1) rest

/-- The part `digits / 10 ^ count` of a unit, worked out in doubles and cut to whole nanoseconds. -/
def fractionOf (digits count unit : Nat) : Nat :=
  match Binary64.ofRatio? false digits 1, Binary64.ofRatio? false unit (Nat.pow 10 count) with
  | some a, some b => (((a.product? b).bind Binary64.truncated?).getD 0).toNat
  | _, _ => 0

/-- A number with a unit, in nanoseconds, and what follows. -/
def readPart? (text : Bytes) : Option (Nat × Bytes) :=
  let whole := text.takeWhile isDigitByte
  let rest := text.dropWhile isDigitByte
  let fraction := match rest with
    | c :: more => if c = byte '.' then more.takeWhile isDigitByte else []
    | [] => []
  let rest := match rest with
    | c :: more => if c = byte '.' then more.dropWhile isDigitByte else rest
    | [] => []
  let name := rest.takeWhile fun c => c != byte '.' && !isDigitByte c
  if whole.isEmpty && fraction.isEmpty then none
  else match unit? name with
    | none => none
    | some unit =>
      let n := digitsValue whole
      let (digits, count) := fractionDigits 0 0 fraction
      let total := n * unit + if 0 < digits then fractionOf digits count unit else 0
      if bound / unit < n ∨ bound < total then none else some (total, rest.drop name.length)

/-- The sum of numbers with units, at most `parts` of them. -/
def readParts? : (parts : Nat) → Bytes → Option Nat
  | _, [] => some 0
  | 0, _ => none
  | parts + 1, text => do
    let (first, rest) ← readPart? text
    let others ← readParts? parts rest
    let total := first + others
    if bound < total then none else some total

/-- Reads a span. Every part takes at least one byte, so there are no more parts than bytes. -/
def ofText? (text : Bytes) : Option Duration :=
  let (negative, rest) := splitSign text
  if rest = utf8 "0" then some zero
  else if rest.isEmpty then none
  else match readParts? rest.length rest with
    | none => none
    | some n => if negative then some ⟨Int64.ofInt (-n)⟩ else if n < bound then some ⟨Int64.ofNat n⟩ else none

end Duration

end StackMachine
