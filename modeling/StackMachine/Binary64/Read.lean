import StackMachine.Binary64
import StackMachine.Text.IntLiteral
import StackMachine.Text.Number

namespace StackMachine

/-- What a text says about a number. -/
inductive FloatReading where
  | number (value : Binary64)
  | notANumber
  | outOfRange
  | malformed
  deriving DecidableEq

def isDigitOrGap (c : UInt8) : Bool := isDigitByte c || c == byte '_'

/-- The exponent after its mark, if it is well formed. -/
def readExponent? (text : Bytes) : Option Int :=
  let (negative, digits) := splitSign text
  match digits with
  | [] => none
  | c :: _ =>
    if isDigitByte c && digits.all isDigitOrGap then
      some (if negative then -digitsValue digits else digitsValue digits)
    else none

/-- Digits, a point, digits, and an exponent after `e`. -/
def readUnsignedFloat (negative : Bool) (text : Bytes) : FloatReading :=
  let whole := text.takeWhile isDigitOrGap
  let rest := text.dropWhile isDigitOrGap
  let fraction := match rest with
    | c :: more => if c = byte '.' then more.takeWhile isDigitOrGap else []
    | [] => []
  let rest := match rest with
    | c :: more => if c = byte '.' then more.dropWhile isDigitOrGap else rest
    | [] => []
  let places := (fraction.filter isDigitByte).length
  let exponent? := match rest with
    | [] => some 0
    | c :: more => if foldCase c = byte 'e' then readExponent? more else none
  match exponent? with
  | none => .malformed
  | some exponent =>
    if !(whole ++ fraction).any isDigitByte then .malformed
    else if text.contains (byte '_') && !underscoresFit isDigitByte false false text then .malformed
    else match Binary64.ofDecimal? negative (digitsValue (whole ++ fraction)) (exponent - places) with
      | some value => .number value
      | none => .outOfRange

def readFloat (text : Bytes) : FloatReading :=
  let (negative, magnitude) := splitSign text
  let word := magnitude.map lowerByte
  if word = utf8 "inf" ∨ word = utf8 "infinity" then .number (.infinite negative)
  else if text.map lowerByte = utf8 "nan" then .notANumber
  else readUnsignedFloat negative magnitude

end StackMachine
