import StackMachine.Binary64.Read
import StackMachine.Text.Number

namespace StackMachine

inductive YamlValue where
  | null
  | bool (b : Bool)
  /-- An integer between `-2 ^ 63` and `2 ^ 64 - 1`. -/
  | int (v : Int)
  /-- A number; none when it is not one. -/
  | float (v : Option Binary64)
  | text (t : Bytes)
  deriving DecidableEq

namespace YamlValue

def tag : YamlValue → Bytes
  | .null => utf8 "!!null"
  | .bool _ => utf8 "!!bool"
  | .int _ => utf8 "!!int"
  | .float _ => utf8 "!!float"
  | .text _ => utf8 "!!str"

def oneOf (text : Bytes) (spellings : List String) : Bool := spellings.any fun s => utf8 s == text

/-- The scalars that are known by their spelling. -/
def ofWord? (text : Bytes) : Option YamlValue :=
  if oneOf text ["", "~", "null", "Null", "NULL"] then some .null
  else if oneOf text ["true", "True", "TRUE"] then some (.bool true)
  else if oneOf text ["false", "False", "FALSE"] then some (.bool false)
  else if oneOf text [".nan", ".NaN", ".NAN"] then some (.float none)
  else if oneOf text [".inf", ".Inf", ".INF", "+.inf", "+.Inf", "+.INF"] then some (.float (some (.infinite false)))
  else if oneOf text ["-.inf", "-.Inf", "-.INF"] then some (.float (some (.infinite true)))
  else none

/-- Whether a text is a number with digits, an optional point and an optional exponent, and nothing else. -/
def isDecimal (text : Bytes) : Bool :=
  let digits := (splitSign text).2
  let whole := digits.takeWhile isDigitByte
  let rest := digits.dropWhile isDigitByte
  let fraction := match rest with
    | c :: more => if c = byte '.' then more.takeWhile isDigitByte else []
    | [] => []
  let rest := match rest with
    | c :: more => if c = byte '.' then more.dropWhile isDigitByte else rest
    | [] => []
  !(whole.isEmpty && fraction.isEmpty) &&
    match rest with
    | [] => true
    | c :: more => foldCase c == byte 'e' && (readExponent? more).isSome && !more.contains (byte '_')

def number? (text : Bytes) : Option YamlValue :=
  match readFloat text with
  | .number v => some (.float (some v))
  | _ => none

/-- An integer in any base, signed or up to 64 bits without a sign. -/
def integer? (text : Bytes) : Option YamlValue :=
  match readInt text, readUnsigned text with
  | .ok v, _ => some (.int v.toInt)
  | .error _, .ok n => some (.int n)
  | .error _, .error _ => none

/-- What starts with a digit or a sign: an integer, else a number; underscores do not count. -/
def numeric? (text : Bytes) : Option YamlValue :=
  let plain := text.filter (· != byte '_')
  integer? plain <|> if isDecimal plain then number? plain else none

def ofPlain (text : Bytes) : YamlValue :=
  let known := match text.head? with
    | some c =>
      if isDigitByte c || c == byte '+' || c == byte '-' then numeric? text
      else if c == byte '.' then number? text
      else none
    | none => none
  ((ofWord? text) <|> known).getD (.text text)

end YamlValue

end StackMachine
