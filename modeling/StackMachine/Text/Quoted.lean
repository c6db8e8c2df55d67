import StackMachine.Text.Number
import StackMachine.Text.Printable
import StackMachine.Text.Utf8

namespace StackMachine

/-- Lower-case hexadecimal of an exact width. -/
def escapeDigits (width n : Nat) : Bytes := paddedLeft (byte '0') width (lowerHex n)

def escapedCode (code : Nat) : Bytes :=
  match code with
  | 7 => utf8 "\\a"
  | 8 => utf8 "\\b"
  | 9 => utf8 "\\t"
  | 10 => utf8 "\\n"
  | 11 => utf8 "\\v"
  | 12 => utf8 "\\f"
  | 13 => utf8 "\\r"
  | _ =>
    if code < 0x20 || code == 0x7F then utf8 "\\x" ++ escapeDigits 2 code
    else if code < 0x10000 then utf8 "\\u" ++ escapeDigits 4 code
    else utf8 "\\U" ++ escapeDigits 8 code

def quotedGlyph : Glyph → Bytes
  | .stray b => utf8 "\\x" ++ escapeDigits 2 b.toNat
  | .char c =>
    if c == '"' || c == '\\' then [byte '\\', byte c]
    else if isPrintable c.toNat then String.utf8EncodeChar c
    else escapedCode c.toNat

def quoted (text : Bytes) : Bytes :=
  [byte '"'] ++ (glyphs text).flatMap quotedGlyph ++ [byte '"']

end StackMachine
