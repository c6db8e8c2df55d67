import StackMachine.Text.Utf8

namespace StackMachine

def isBlankCode (code : Nat) : Bool :=
  (9 ≤ code && code ≤ 13) || code == 0x20 || code == 0x85 || code == 0xA0 || code == 0x1680 ||
    (0x2000 ≤ code && code ≤ 0x200A) || code == 0x2028 || code == 0x2029 || code == 0x202F || code == 0x205F ||
    code == 0x3000

def Glyph.isBlank (g : Glyph) : Bool := isBlankCode g.code

/-- A text without the white space at its ends. -/
def trimmed (text : Bytes) : Bytes :=
  ofGlyphs (((glyphs text).dropWhile Glyph.isBlank).reverse.dropWhile Glyph.isBlank).reverse

/-- The maximal runs of glyphs that are not white space; `run` holds the one being read, last glyph first. -/
def glyphWords (run : List Glyph) : List Glyph → List (List Glyph)
  | [] => if run.isEmpty then [] else [run.reverse]
  | g :: rest =>
    if g.isBlank then
      if run.isEmpty then glyphWords [] rest else run.reverse :: glyphWords [] rest
    else glyphWords (g :: run) rest

/-- The words of a text. -/
def words (text : Bytes) : List Bytes := (glyphWords [] (glyphs text)).map ofGlyphs

end StackMachine
