import StackMachine.Bytes

namespace StackMachine

/-- Why a text is not a 64-bit integer. -/
inductive IntFault where
  | malformed
  | outOfRange
  deriving DecidableEq

/-- The size of the least 64-bit integer; all of them are below it. -/
def wordBound : Nat := UInt64.size / 2

/-- Folds a letter to lower case by its bit; other bytes may change too. -/
def foldCase (c : UInt8) : UInt8 := c ||| 0x20

/-- The value of a digit in the largest base. -/
def digitValue? (c : UInt8) : Option Nat :=
  if isDigitByte c then some (c.toNat - 48)
  else if isLowerByte (foldCase c) then some ((foldCase c).toNat - 87)
  else none

/-- Reads digits after the value read so far, skipping underscores. The first digit that makes the value too large for
64 bits ends the reading. -/
def readDigits (base : Nat) : Nat → Bytes → Except IntFault Nat
  | n, [] => .ok n
  | n, c :: rest =>
    if c = byte '_' then readDigits base n rest
    else match digitValue? c with
      | none => .error .malformed
      | some d =>
        if base ≤ d then .error .malformed
        else if UInt64.size ≤ n * base + d then .error .outOfRange
        else readDigits base (n * base + d) rest

/-- Whether every underscore follows a digit (or the base mark) and is followed by one. `digit` tells whether a digit
came last, `gap` whether an underscore did. -/
def underscoresFit (isDigit : UInt8 → Bool) : (digit gap : Bool) → Bytes → Bool
  | _, gap, [] => !gap
  | digit, gap, c :: rest =>
    if isDigit c then underscoresFit isDigit true false rest
    else if c = byte '_' then digit && underscoresFit isDigit false true rest
    else !gap && underscoresFit isDigit false false rest

def isHexByte (c : UInt8) : Bool :=
  isDigitByte c || (byte 'a' ≤ foldCase c && foldCase c ≤ byte 'f')

/-- Whether the underscores of an unsigned literal stand where they may. -/
def underscoresAllowed (text : Bytes) : Bool :=
  match text with
  | a :: b :: rest =>
    if a = byte '0' ∧ (foldCase b = byte 'b' ∨ foldCase b = byte 'o' ∨ foldCase b = byte 'x') then
      underscoresFit (if foldCase b = byte 'x' then isHexByte else isDigitByte) true false rest
    else underscoresFit isDigitByte false false text
  | _ => underscoresFit isDigitByte false false text

/-- The base of an unsigned literal and the digits after its base mark. -/
def literalBase (text : Bytes) : Nat × Bytes :=
  match text with
  | a :: b :: c :: rest =>
    if a = byte '0' then
      if foldCase b = byte 'b' then (2, c :: rest)
      else if foldCase b = byte 'o' then (8, c :: rest)
      else if foldCase b = byte 'x' then (16, c :: rest)
      else (8, b :: c :: rest)
    else (10, text)
  | a :: rest => if a = byte '0' then (8, rest) else (10, text)
  | [] => (10, [])

/-- The value of an unsigned literal that fits 64 bits. -/
def readUnsigned (text : Bytes) : Except IntFault Nat :=
  if text.isEmpty then .error .malformed
  else
    let (base, digits) := literalBase text
    match readDigits base 0 digits with
    | .error fault => .error fault
    | .ok n =>
      if digits.contains (byte '_') && !underscoresAllowed text then .error .malformed else .ok n

/-- A sign and the text after it; no sign counts as positive. -/
def splitSign : Bytes → Bool × Bytes
  | [] => (false, [])
  | c :: rest =>
    if c = byte '+' then (false, rest)
    else if c = byte '-' then (true, rest)
    else (false, c :: rest)

/-- Reads a signed 64-bit integer literal. -/
def readInt (text : Bytes) : Except IntFault Int64 :=
  let (negative, magnitude) := splitSign text
  match readUnsigned magnitude with
  | .error fault => .error fault
  | .ok n =>
    if negative then
      if wordBound < n then .error .outOfRange else .ok (Int64.ofInt (-n))
    else
      if wordBound ≤ n then .error .outOfRange else .ok (Int64.ofInt n)

/-- The value of a literal, if it is one. -/
def int? (text : Bytes) : Option Int64 := (readInt text).toOption

end StackMachine
