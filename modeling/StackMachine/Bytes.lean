namespace StackMachine

abbrev Bytes := List UInt8

/-- The bytes of a literal text. -/
def utf8 (s : String) : Bytes := s.toUTF8.data.toList

/-- The byte of an ASCII character. -/
abbrev byte (c : Char) : UInt8 := c.toUInt8

def newline : UInt8 := byte '\n'

/-- Text between separators. -/
def joined (separator : Bytes) (parts : List Bytes) : Bytes := separator.intercalate parts

def isAscii (text : Bytes) : Bool := text.all (· < 0x80)

def isDigitByte (c : UInt8) : Bool := byte '0' ≤ c && c ≤ byte '9'

def isUpperByte (c : UInt8) : Bool := byte 'A' ≤ c && c ≤ byte 'Z'

def isLowerByte (c : UInt8) : Bool := byte 'a' ≤ c && c ≤ byte 'z'

def upperByte (c : UInt8) : UInt8 := if isLowerByte c then c - 32 else c

def lowerByte (c : UInt8) : UInt8 := if isUpperByte c then c + 32 else c

/-- The text without a given beginning, unchanged when it does not begin so. -/
def stripLeading (beginning text : Bytes) : Bytes :=
  if beginning.isPrefixOf text then text.drop beginning.length else text

/-- Pads on the left up to a width counted in bytes. -/
def paddedLeft (fill : UInt8) (width : Nat) (text : Bytes) : Bytes :=
  List.replicate (width - text.length) fill ++ text

end StackMachine
