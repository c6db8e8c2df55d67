import StackMachine.Text.IntLiteral
import StackMachine.Text.Utf8

namespace StackMachine

/-- A node of a document. What a sequence holds is of no concern. -/
inductive YamlNode where
  | scalar (line : Nat) (quoted : Bool) (text : Bytes)
  | sequence (line : Nat)
  | mapping (line : Nat) (pairs : List (YamlNode × YamlNode))

def YamlNode.line : YamlNode → Nat
  | .scalar line _ _ => line
  | .sequence line => line
  | .mapping line _ => line

/-- A byte and its line. -/
structure Mark where
  code : UInt8
  line : Nat

def isGap (c : UInt8) : Bool := c == byte ' ' || c == byte '\t'

def isGapOrEnd (c : UInt8) : Bool := isGap c || c == newline

/-- Whether the rest starts with a gap, a line end or nothing at all. -/
def endsHere (rest : List Mark) : Bool := (rest.head?.map fun m => isGapOrEnd m.code).getD true

namespace Mark

/-- Drops gaps, line ends and comments. A comment has a gap before it. -/
def skip (gapBefore comment : Bool) : List Mark → List Mark
  | [] => []
  | m :: rest =>
    if m.code = newline then skip true false rest
    else if comment then skip true true rest
    else if isGap m.code then skip true false rest
    else if gapBefore && m.code == byte '#' then skip true true rest
    else m :: rest

/-- A text in single quotes, after the first one; a doubled quote stands for one. `text` is held last byte first,
`folding` tells that a line end came last. -/
def readSingle (folding : Bool) (text : Bytes) : List Mark → Option (Bytes × List Mark)
  | [] => none
  | m :: rest =>
    if m.code = byte '\'' then
      match rest with
      | n :: more => if n.code = byte '\'' then readSingle false (m.code :: text) more else some (text.reverse, rest)
      | [] => some (text.reverse, [])
    else if m.code = newline then readSingle true (byte ' ' :: text.dropWhile isGap) rest
    else if folding && isGap m.code then readSingle true text rest
    else readSingle false (m.code :: text) rest

/-- The character of an escape of one letter. -/
def escapedChar? (c : UInt8) : Option Nat :=
  match Char.ofNat c.toNat with
  | '0' => some 0
  | 'a' => some 7
  | 'b' => some 8
  | 't' => some 9
  | '\t' => some 9
  | 'n' => some 10
  | 'v' => some 11
  | 'f' => some 12
  | 'r' => some 13
  | 'e' => some 27
  | ' ' => some 32
  | '"' => some 34
  | '/' => some 47
  | '\\' => some 92
  | 'N' => some 0x85
  | '_' => some 0xA0
  | 'L' => some 0x2028
  | 'P' => some 0x2029
  | _ => none

/-- The number of digits of an escape by code. -/
def escapeWidth? (c : UInt8) : Option Nat :=
  if c = byte 'x' then some 2 else if c = byte 'u' then some 4 else if c = byte 'U' then some 8 else none

/-- The bytes of a code point, last first. -/
def codeBytes (code : Nat) : Bytes := (String.utf8EncodeChar (Char.ofNat code)).reverse

/-- A text in double quotes, after the first one. `pending` and `code` are the digits that an escape still needs and
its value so far. -/
def readDouble (folding escape : Bool) (pending code : Nat) (text : Bytes) : List Mark → Option (Bytes × List Mark)
  | [] => none
  | m :: rest =>
    if 0 < pending then
      match if isHexByte m.code then digitValue? m.code else none with
      | none => none
      | some d =>
        let code := code * 16 + d
        if pending = 1 then readDouble false false 0 0 (codeBytes code ++ text) rest
        else readDouble false false (pending - 1) code text rest
    else if escape then
      match escapedChar? m.code, escapeWidth? m.code with
      | some code, _ => readDouble false false 0 0 (codeBytes code ++ text) rest
      | none, some width => readDouble false false width 0 text rest
      | none, none => if m.code = newline then readDouble true false 0 0 text rest else none
    else if m.code = byte '"' then some (text.reverse, rest)
    else if m.code = byte '\\' then readDouble false true 0 0 text rest
    else if m.code = newline then readDouble true false 0 0 (byte ' ' :: text.dropWhile isGap) rest
    else if folding && isGap m.code then readDouble true false 0 0 text rest
    else readDouble false false 0 0 (m.code :: text) rest

/-- A scalar in quotes, if one starts here. -/
def quoted? : List Mark → Option (YamlNode × List Mark)
  | [] => none
  | m :: rest =>
    let read := if m.code = byte '\'' then readSingle false [] rest
      else if m.code = byte '"' then readDouble false false 0 0 [] rest
      else none
    read.map fun (text, rest) => (.scalar m.line true text, rest)

def isBracket (c : UInt8) : Bool :=
  c == byte '[' || c == byte ']' || c == byte '\x7b' || c == byte '\x7d'

/-- A plain scalar inside brackets, which end it as commas do. `text` is held last byte first. -/
def readPlain (text : Bytes) : List Mark → Bytes × List Mark
  | [] => (text, [])
  | m :: rest =>
    let c := m.code
    if isBracket c || c == byte ',' || c == byte '?' then (text, m :: rest)
    else if c == byte ':' && endsHere rest then (text, m :: rest)
    else if c == byte '#' && (text.head?.map isGap).getD true then (text, m :: rest)
    else readPlain ((if c = newline then byte ' ' else c) :: text) rest

def plainText (reversed : Bytes) : Bytes := ((reversed.dropWhile isGap).reverse).dropWhile isGap

/-- Whether a byte is next, after gaps; then what follows it. -/
def next? (c : UInt8) (marks : List Mark) : Option (List Mark) :=
  match skip true false marks with
  | m :: rest => if m.code = c then some rest else none
  | [] => none

mutual

/-- A node inside brackets; `fuel` bounds how many nodes are read. -/
def flowNode : (fuel : Nat) → List Mark → Option (YamlNode × List Mark)
  | 0, _ => none
  | fuel + 1, marks =>
    match skip true false marks with
    | [] => none
    | m :: rest =>
      if m.code = byte '\x7b' then
        (flowPairs fuel [] rest).map fun (pairs, rest) => (.mapping m.line pairs, rest)
      else if m.code = byte '[' then (flowItems fuel rest).map fun rest => (.sequence m.line, rest)
      else match quoted? (m :: rest) with
        | some result => some result
        | none =>
          let (text, rest) := readPlain [] (m :: rest)
          some (.scalar m.line false (plainText text), rest)

/-- The value after a colon; it may be left out. -/
def flowValue (line : Nat) : (fuel : Nat) → List Mark → Option (YamlNode × List Mark)
  | 0, _ => none
  | fuel + 1, marks =>
    match next? (byte ':') marks with
    | some rest => flowNode fuel rest
    | none => some (.scalar line false [], marks)

/-- The pairs of a mapping up to its closing bracket, those read so far last first. -/
def flowPairs : (fuel : Nat) → List (YamlNode × YamlNode) → List Mark → Option (List (YamlNode × YamlNode) × List Mark)
  | 0, _, _ => none
  | fuel + 1, pairs, marks =>
    match next? (byte '\x7d') marks with
    | some rest => some (pairs.reverse, rest)
    | none => do
      let (name, rest) ← flowNode fuel marks
      let (value, rest) ← flowValue name.line fuel rest
      match next? (byte ',') rest with
      | some rest => flowPairs fuel ((name, value) :: pairs) rest
      | none => (next? (byte '\x7d') rest).map fun rest => (((name, value) :: pairs).reverse, rest)

/-- What follows the items of a sequence and its closing bracket. -/
def flowItems : (fuel : Nat) → List Mark → Option (List Mark)
  | 0, _ => none
  | fuel + 1, marks =>
    match next? (byte ']') marks with
    | some rest => some rest
    | none => do
      let (item, rest) ← flowNode fuel marks
      let (_, rest) ← flowValue item.line fuel rest
      match next? (byte ',') rest with
      | some rest => flowItems fuel rest
      | none => next? (byte ']') rest

end

end Mark

end StackMachine
