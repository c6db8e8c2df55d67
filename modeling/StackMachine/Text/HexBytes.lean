import StackMachine.Text.IntLiteral
import StackMachine.Text.Number
import StackMachine.Text.Printable

namespace StackMachine

/-- Why a text is not a sequence of hexadecimal pairs. -/
inductive HexFault where
  | invalidByte (b : UInt8)
  | oddLength
  deriving DecidableEq

/-- The byte as a code point and, when it can be shown, the character itself. -/
def codePointText (b : UInt8) : Bytes :=
  utf8 "U+" ++ paddedHex 4 b.toNat ++
    if isPrintable b.toNat then [32, 39] ++ String.utf8EncodeChar (Char.ofNat b.toNat) ++ [39] else []

def HexFault.message : HexFault → Bytes
  | .invalidByte b => utf8 "encoding/hex: invalid byte: " ++ codePointText b
  | .oddLength => utf8 "encoding/hex: odd length hex string"

/-- The value of a hexadecimal digit. -/
def nibble? (c : UInt8) : Option UInt8 :=
  if isHexByte c then (digitValue? c).map (·.toUInt8) else none

/-- Reads pairs from the left; the first byte that is no digit is reported. -/
def readHex : Bytes → Except HexFault Bytes
  | [] => .ok []
  | [a] => .error (if (nibble? a).isSome then .oddLength else .invalidByte a)
  | a :: b :: rest =>
    match nibble? a, nibble? b with
    | none, _ => .error (.invalidByte a)
    | _, none => .error (.invalidByte b)
    | some high, some low =>
      match readHex rest with
      | .ok bytes => .ok ((high * 16 + low) :: bytes)
      | .error fault => .error fault

end StackMachine
