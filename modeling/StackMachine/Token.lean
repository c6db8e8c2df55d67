import StackMachine.Bytes

namespace StackMachine

inductive TokenKind where
  | eof
  | newline
  | ident
  | int
  | comma
  | illegal
  deriving DecidableEq

namespace TokenKind

def text : TokenKind → Bytes
  | .eof => utf8 "EOF"
  | .newline => utf8 "NEWLINE"
  | .ident => utf8 "IDENT"
  | .int => utf8 "INT"
  | .comma => utf8 "COMMA"
  | .illegal => utf8 "ILLEGAL"

def all : List TokenKind := [.eof, .newline, .ident, .int, .comma, .illegal]

/-- The name of a token kind by its number, `UNKNOWN` beyond the last one. -/
def textOfCode (n : Nat) : Bytes := (all[n]?.map text).getD (utf8 "UNKNOWN")

end TokenKind

structure Token where
  kind : TokenKind
  text : Bytes
  line : Nat
  deriving DecidableEq

def isLatinLetter (c : UInt8) : Bool :=
  isUpperByte c || isLowerByte c || c == 0xAA || c == 0xB5 || c == 0xBA ||
    (0xC0 ≤ c && c ≤ 0xD6) || (0xD8 ≤ c && c ≤ 0xF6) || 0xF8 ≤ c

def startsWord (c : UInt8) : Bool := isLatinLetter c || c == byte '_'

def isWordByte (c : UInt8) : Bool := isLatinLetter c || isDigitByte c || c == byte '_'

/-- Blanks inside a line. -/
def isGapByte (c : UInt8) : Bool := c == byte ' ' || c == byte '\t' || c == byte '\r'

def startsComment (c : UInt8) : Bool := c == byte ';' || c == byte '#'

def isSign (c : UInt8) : Bool := c == byte '-' || c == byte '+'

/-- A number starts with a digit, or with a sign right before one. -/
def startsNumber (c : UInt8) (rest : Bytes) : Bool :=
  isDigitByte c || (isSign c && rest.head?.any isDigitByte)

/-- The Latin-1 character of a byte. -/
def latinText (c : UInt8) : Bytes := String.utf8EncodeChar (Char.ofNat c.toNat)

/-- The tokens of the text from a line on. -/
def tokensFrom (line : Nat) : Bytes → List Token
  | [] => [⟨.eof, [], line⟩]
  | c :: rest =>
    if isGapByte c then tokensFrom line rest
    else if c = newline then ⟨.newline, [newline], line⟩ :: tokensFrom (line + 1) rest
    else if startsComment c then tokensFrom line (rest.dropWhile (· != newline))
    else if c = byte ',' then ⟨.comma, [c], line⟩ :: tokensFrom line rest
    else if startsNumber c rest then
      ⟨.int, c :: rest.takeWhile isWordByte, line⟩ :: tokensFrom line (rest.dropWhile isWordByte)
    else if startsWord c then
      ⟨.ident, c :: rest.takeWhile isWordByte, line⟩ :: tokensFrom line (rest.dropWhile isWordByte)
    else ⟨.illegal, latinText c, line⟩ :: tokensFrom line rest
termination_by text => text.length
decreasing_by
  all_goals
    have h := (List.dropWhile_sublist (l := rest) (· != newline)).length_le
    have h' := (List.dropWhile_sublist (l := rest) isWordByte).length_le
    simp only [List.length_cons]
    omega

def tokens (source : Bytes) : List Token := tokensFrom 1 source

end StackMachine
