import StackMachine.Bytes

namespace StackMachine

/-- One unit of a text that need not be well-formed UTF-8. -/
inductive Glyph where
  | char (c : Char)
  | stray (b : UInt8)
  deriving DecidableEq

def Glyph.bytes : Glyph → Bytes
  | .char c => String.utf8EncodeChar c
  | .stray b => [b]

/-- The code point, that of the replacement character for a stray byte. -/
def Glyph.code : Glyph → Nat
  | .char c => c.toNat
  | .stray _ => 0xFFFD

def isTrailing (b : UInt8) : Bool := 0x80 ≤ b && b ≤ 0xBF

def isPair (a b : UInt8) : Bool := 0xC2 ≤ a && a ≤ 0xDF && isTrailing b

def isTriple (a b c : UInt8) : Bool :=
  isTrailing b && isTrailing c &&
    ((a == 0xE0 && 0xA0 ≤ b) || (0xE1 ≤ a && a ≤ 0xEC) || (a == 0xED && b ≤ 0x9F) || a == 0xEE || a == 0xEF)

def isQuad (a b c d : UInt8) : Bool :=
  isTrailing b && isTrailing c && isTrailing d &&
    ((a == 0xF0 && 0x90 ≤ b) || (0xF1 ≤ a && a ≤ 0xF3) || (a == 0xF4 && b ≤ 0x8F))

/-- The low six bits of a trailing byte. -/
def payload (b : UInt8) : Nat := b.toNat % 64

/-- A glyph of one byte. -/
def loneGlyph (a : UInt8) : Glyph := if a < 0x80 then .char (Char.ofNat a.toNat) else .stray a

def pairGlyph (a b : UInt8) : Glyph := .char (Char.ofNat (a.toNat % 32 * 64 + payload b))

def tripleGlyph (a b c : UInt8) : Glyph :=
  .char (Char.ofNat ((a.toNat % 16 * 64 + payload b) * 64 + payload c))

def quadGlyph (a b c d : UInt8) : Glyph :=
  .char (Char.ofNat (((a.toNat % 8 * 64 + payload b) * 64 + payload c) * 64 + payload d))

/-- The glyphs of a text, the longest well-formed character first. -/
def glyphs : Bytes → List Glyph
  | [] => []
  | [a] => [loneGlyph a]
  | a :: b :: r =>
    if isPair a b then pairGlyph a b :: glyphs r
    else match r with
      | [] => loneGlyph a :: glyphs [b]
      | c :: r' =>
        if isTriple a b c then tripleGlyph a b c :: glyphs r'
        else match r' with
          | [] => loneGlyph a :: glyphs [b, c]
          | d :: r'' =>
            if isQuad a b c d then quadGlyph a b c d :: glyphs r''
            else loneGlyph a :: glyphs (b :: c :: d :: r'')

/-- The bytes of a sequence of glyphs. -/
def ofGlyphs (text : List Glyph) : Bytes := text.flatMap Glyph.bytes

end StackMachine
