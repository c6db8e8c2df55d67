import StackMachine.Binary64.Shortest
import StackMachine.Text.Number

namespace StackMachine

/-- How a double is written. -/
structure FloatStyle where
  /-- The power of ten of the first digit from which, and below which, an exponent is written. -/
  fewest : Int
  most : Int
  mark : UInt8
  /-- The fewest digits of an exponent below zero. -/
  negativeExponentDigits : Nat

/-- Columns and tables: an exponent below a ten-thousandth and from a million on, always of two digits. -/
def FloatStyle.column : FloatStyle := ⟨-4, 6, byte 'e', 2⟩

/-- A number that stands in a column of texts. -/
def FloatStyle.inText : FloatStyle := { FloatStyle.column with mark := byte 'E' }

/-- Objects: positional from a millionth to a thousand million million million. -/
def FloatStyle.object : FloatStyle := ⟨-6, 21, byte 'e', 1⟩

def digitBytes (digits : List Nat) : Bytes := digits.map fun d => (48 + d).toUInt8

namespace Decimal

/-- Digits around a point, without exponent. -/
def positional (d : Decimal) : Bytes :=
  let shown := digitBytes d.digits
  if d.point ≤ 0 then
    if shown.isEmpty then utf8 "0"
    else utf8 "0." ++ List.replicate d.point.natAbs (byte '0') ++ shown
  else
    let width := d.point.toNat
    let whole := shown.take width ++ List.replicate (width - shown.length) (byte '0')
    if shown.length ≤ width then whole else whole ++ [byte '.'] ++ shown.drop width

/-- One digit before the point and the rest after it, then the power of ten. -/
def scientific (style : FloatStyle) (d : Decimal) : Bytes :=
  let power := d.point - 1
  let fraction := digitBytes (d.digits.drop 1)
  digitBytes (d.digits.take 1) ++ (if fraction.isEmpty then [] else byte '.' :: fraction) ++ [style.mark] ++
    (if power < 0 then byte '-' :: paddedLeft (byte '0') style.negativeExponentDigits (decimalNat power.natAbs)
     else byte '+' :: paddedLeft (byte '0') 2 (decimalNat power.natAbs))

def text (style : FloatStyle) (d : Decimal) : Bytes :=
  if d.digits.isEmpty then utf8 "0"
  else if d.point - 1 < style.fewest ∨ style.most ≤ d.point - 1 then d.scientific style
  else d.positional

end Decimal

namespace Binary64

def text (style : FloatStyle) : Binary64 → Bytes
  | .infinite negative => if negative then utf8 "-Inf" else utf8 "+Inf"
  | .finite negative mantissa exponent =>
    (if negative then [byte '-'] else []) ++ (shortest mantissa exponent).text style

end Binary64

end StackMachine
