import StackMachine.Text.CaseTable
import StackMachine.Text.Utf8

namespace StackMachine

def asciiUpperCode (code : Nat) : Nat := if 97 ≤ code && code ≤ 122 then code - 32 else code

def asciiLowerCode (code : Nat) : Nat := if 65 ≤ code && code ≤ 90 then code + 32 else code

def upperCode (code : Nat) : Nat :=
  if code < 0x80 then asciiUpperCode code else mapCode upperRuns code

def lowerCode (code : Nat) : Nat :=
  if code < 0x80 then asciiLowerCode code else mapCode lowerRuns code

/-- Applies a map of code points, reading a stray byte as the replacement character. -/
def mapCodes (f : Nat → Nat) (text : Bytes) : Bytes :=
  (glyphs text).flatMap fun g => String.utf8EncodeChar (Char.ofNat (f g.code))

def upper (text : Bytes) : Bytes :=
  if isAscii text then text.map upperByte else mapCodes upperCode text

def lower (text : Bytes) : Bytes :=
  if isAscii text then text.map lowerByte else mapCodes lowerCode text

end StackMachine
