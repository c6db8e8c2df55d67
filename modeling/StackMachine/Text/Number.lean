import StackMachine.Bytes

namespace StackMachine

def decimalNat (n : Nat) : Bytes := (Nat.toDigits 10 n).map byte

def decimal : Int → Bytes
  | .ofNat n => decimalNat n
  | .negSucc n => byte '-' :: decimalNat (n + 1)

/-- The number that digits spell, other bytes being skipped. -/
def digitsValue (text : Bytes) : Nat :=
  (text.filter isDigitByte).foldl (fun n c => n * 10 + (c.toNat - 48)) 0

/-- Lower-case hexadecimal digits. -/
def lowerHex (n : Nat) : Bytes := (Nat.toDigits 16 n).map byte

/-- Upper-case hexadecimal digits. -/
def upperHex (n : Nat) : Bytes := (lowerHex n).map upperByte

/-- Upper-case hexadecimal with at least the given number of digits. -/
def paddedHex (width n : Nat) : Bytes := paddedLeft (byte '0') width (upperHex n)

/-- A byte as `0x` and two digits. -/
def hexByte (b : UInt8) : Bytes := utf8 "0x" ++ paddedHex 2 b.toNat

/-- A decimal offset of at least four digits. -/
def offsetText (n : Nat) : Bytes := paddedLeft (byte '0') 4 (decimalNat n)

/-- The size of a word without its sign. The least word has one too. -/
def magnitude (v : Int64) : UInt64 := if v < 0 then (-(v + 1)).toUInt64 + 1 else v.toUInt64

/-- The value as a word of the machine is shown next to registers and cells: hexadecimal with at least four digits,
after its sign. -/
def hexValue (v : Int64) : Bytes :=
  (if v < 0 then [byte '-'] else []) ++ utf8 "0x" ++ paddedHex 4 (magnitude v).toNat

def value (v : Int64) : Bytes := decimal v.toInt

end StackMachine
