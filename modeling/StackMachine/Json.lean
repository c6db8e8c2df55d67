import StackMachine.Binary64.Read
import StackMachine.Text.Number
import StackMachine.Text.Utf8

namespace StackMachine

inductive Json where
  | null
  | bool (b : Bool)
  | number (v : Binary64)
  | text (t : Bytes)
  | array (items : List Json)
  | object (members : List (Bytes × Json))

inductive JsonFault where
  | malformed
  /-- A number that is too large for a double. -/
  | numberRange (literal : Bytes)
  deriving DecidableEq

def JsonFault.message : JsonFault → Bytes
  | .malformed => utf8 "invalid JSON text"
  | .numberRange literal => utf8 "json: cannot unmarshal number " ++ literal ++ utf8 " into Go value of type float64"

def jsonEscape (code : Nat) : Bytes := utf8 "\\u" ++ paddedLeft (byte '0') 4 (lowerHex code)

/-- A character inside the quotes. The marks that mean something in a web page are escaped too. -/
def jsonGlyph : Glyph → Bytes
  | .stray _ => utf8 "\\ufffd"
  | .char c =>
    match c with
    | '"' => utf8 "\\\""
    | '\\' => utf8 "\\\\"
    | '\n' => utf8 "\\n"
    | '\r' => utf8 "\\r"
    | '\t' => utf8 "\\t"
    | '\x08' => utf8 "\\b"
    | '\x0c' => utf8 "\\f"
    | c =>
      if c.toNat < 32 || c == '<' || c == '>' || c == '&' || c.toNat == 0x2028 || c.toNat == 0x2029 then
        jsonEscape c.toNat
      else String.utf8EncodeChar c

def jsonText (text : Bytes) : Bytes :=
  [byte '"'] ++ (glyphs text).flatMap jsonGlyph ++ [byte '"']

inductive JsonToken where
  | openArray
  | closeArray
  | openObject
  | closeObject
  | comma
  | colon
  /-- A value that is neither an array nor an object. -/
  | scalar (v : Json)

/-- A character, or half of one that is written as two escapes. -/
inductive JsonUnit where
  | glyph (g : Glyph)
  | high (code : Nat)
  | low (code : Nat)

def unitOfCode (code : Nat) : JsonUnit :=
  if 0xD800 ≤ code ∧ code < 0xDC00 then .high code
  else if 0xDC00 ≤ code ∧ code < 0xE000 then .low code
  else .glyph (.char (Char.ofNat code))

def replacementBytes : Bytes := String.utf8EncodeChar (Char.ofNat 0xFFFD)

/-- Joins the halves of characters; a half without the other is replaced. -/
def unitsText : List JsonUnit → Bytes
  | [] => []
  | .high h :: .low l :: rest =>
    String.utf8EncodeChar (Char.ofNat (0x10000 + (h - 0xD800) * 0x400 + (l - 0xDC00))) ++ unitsText rest
  | .glyph (.char c) :: rest => String.utf8EncodeChar c ++ unitsText rest
  | _ :: rest => replacementBytes ++ unitsText rest

def shortEscape? (c : Char) : Option Char :=
  match c with
  | '"' => some '"'
  | '\\' => some '\\'
  | '/' => some '/'
  | 'b' => some '\x08'
  | 'f' => some '\x0c'
  | 'n' => some '\n'
  | 'r' => some '\r'
  | 't' => some '\t'
  | _ => none

def hexGlyph? : Glyph → Option Nat
  | .char c => if c.toNat < 128 ∧ isHexByte (byte c) then digitValue? (byte c) else none
  | .stray _ => none

/-- The units of a text up to its closing quote, and what follows. -/
def readUnits (units : List JsonUnit) : List Glyph → Option (Bytes × List Glyph)
  | .char '"' :: rest => some (unitsText units.reverse, rest)
  | .char '\\' :: .char 'u' :: a :: b :: c :: d :: rest =>
    match hexGlyph? a, hexGlyph? b, hexGlyph? c, hexGlyph? d with
    | some a, some b, some c, some d => readUnits (unitOfCode (((a * 16 + b) * 16 + c) * 16 + d) :: units) rest
    | _, _, _, _ => none
  | .char '\\' :: .char c :: rest =>
    match shortEscape? c with
    | some c => readUnits (.glyph (.char c) :: units) rest
    | none => none
  | .char '\\' :: _ => none
  | g :: rest => if g.code < 32 then none else readUnits (.glyph g :: units) rest
  | [] => none

def isNumberGlyph : Glyph → Bool
  | .char c => c.isDigit || c == '-' || c == '+' || c == '.' || c == 'e' || c == 'E'
  | .stray _ => false

/-- Whether a text is a number as JSON writes it: no sign but a minus, no leading zero, digits around the point. -/
def isJsonNumber (text : Bytes) : Bool :=
  let digits := if text.head? = some (byte '-') then text.drop 1 else text
  let whole := digits.takeWhile isDigitByte
  let rest := digits.dropWhile isDigitByte
  let (fraction, rest) := match rest with
    | c :: more => if c = byte '.' then (some (more.takeWhile isDigitByte), more.dropWhile isDigitByte) else (none, rest)
    | [] => (none, [])
  !whole.isEmpty && (whole.length == 1 || whole.head? != some (byte '0')) && fraction != some [] &&
    match rest with
    | [] => true
    | c :: more => foldCase c == byte 'e' && (readExponent? more).isSome && !more.contains (byte '_')

def numberToken (text : Bytes) : Except JsonFault JsonToken :=
  if isJsonNumber text then
    match readFloat text with
    | .number v => .ok (.scalar (.number v))
    | .outOfRange => .error (.numberRange text)
    | _ => .error .malformed
  else .error .malformed

def wordToken? (word : List Glyph) : Option JsonToken :=
  if word = "null".toList.map .char then some (.scalar .null)
  else if word = "true".toList.map .char then some (.scalar (.bool true))
  else if word = "false".toList.map .char then some (.scalar (.bool false))
  else none

def isLetterGlyph : Glyph → Bool
  | .char c => c.isAlpha
  | .stray _ => false

def markToken? : Char → Option JsonToken
  | '[' => some .openArray
  | ']' => some .closeArray
  | '\x7b' => some .openObject
  | '\x7d' => some .closeObject
  | ',' => some .comma
  | ':' => some .colon
  | _ => none

def isJsonSpace (c : Char) : Bool := c == ' ' || c == '\t' || c == '\n' || c == '\r'

/-- The next token and what follows it. -/
def nextToken (g : Glyph) (rest : List Glyph) : Except JsonFault (JsonToken × List Glyph) :=
  match g with
  | .stray _ => .error .malformed
  | .char c =>
    match markToken? c with
    | some token => .ok (token, rest)
    | none =>
      if c = '"' then
        match readUnits [] rest with
        | some (text, rest) => .ok (.scalar (.text text), rest)
        | none => .error .malformed
      else if isNumberGlyph g then
        match numberToken (ofGlyphs ((g :: rest).takeWhile isNumberGlyph)) with
        | .ok token => .ok (token, rest.dropWhile isNumberGlyph)
        | .error fault => .error fault
      else match wordToken? ((g :: rest).takeWhile isLetterGlyph) with
        | some token => .ok (token, rest.dropWhile isLetterGlyph)
        | none => .error .malformed

/-- The tokens before the first fault. Every token takes at least one glyph, so `fuel` only has to reach the length of
the text. -/
def jsonTokens : (fuel : Nat) → List Glyph → List JsonToken × Option JsonFault
  | _, [] => ([], none)
  | 0, _ => ([], some .malformed)
  | fuel + 1, g :: rest =>
    match g with
    | .char c =>
      if isJsonSpace c then jsonTokens fuel rest
      else match nextToken g rest with
        | .ok (token, rest) =>
          let (tokens, fault) := jsonTokens fuel rest
          (token :: tokens, fault)
        | .error fault => ([], some fault)
    | .stray _ => ([], some .malformed)

/-- What is still open while values are read: arrays with their items, objects with their members and the name whose
value comes next; all last first. -/
inductive JsonFrame where
  | array (items : List Json)
  | object (members : List (Bytes × Json)) (name : Bytes)

/-- What may come next. -/
inductive JsonExpect where
  | value
  | valueOrClose
  | nameOrClose
  | name
  | colon
  | commaOrClose
  deriving DecidableEq

structure JsonReading where
  /-- Values that are complete, last first. -/
  done : List Json
  frames : List JsonFrame
  expect : JsonExpect

namespace JsonReading

/-- Hands a complete value to what is open around it. -/
def give (r : JsonReading) (v : Json) : JsonReading :=
  match r.frames with
  | [] => { r with done := v :: r.done, expect := .value }
  | .array items :: frames => { r with frames := .array (v :: items) :: frames, expect := .commaOrClose }
  | .object members name :: frames =>
    { r with frames := .object ((name, v) :: members) [] :: frames, expect := .commaOrClose }

/-- Takes one token, if it may stand here. -/
def token? (r : JsonReading) (t : JsonToken) : Option JsonReading :=
  match t, r.expect, r.frames with
  | .scalar v, .value, _ => some (r.give v)
  | .scalar v, .valueOrClose, _ => some (r.give v)
  | .scalar (.text name), .nameOrClose, .object members _ :: frames =>
    some { r with frames := .object members name :: frames, expect := .colon }
  | .scalar (.text name), .name, .object members _ :: frames =>
    some { r with frames := .object members name :: frames, expect := .colon }
  | .colon, .colon, _ => some { r with expect := .value }
  | .comma, .commaOrClose, .array _ :: _ => some { r with expect := .value }
  | .comma, .commaOrClose, .object _ _ :: _ => some { r with expect := .name }
  | .openArray, .value, frames => some { r with frames := .array [] :: frames, expect := .valueOrClose }
  | .openArray, .valueOrClose, frames => some { r with frames := .array [] :: frames, expect := .valueOrClose }
  | .openObject, .value, frames => some { r with frames := .object [] [] :: frames, expect := .nameOrClose }
  | .openObject, .valueOrClose, frames => some { r with frames := .object [] [] :: frames, expect := .nameOrClose }
  | .closeArray, .valueOrClose, .array items :: frames => some ({ r with frames }.give (.array items.reverse))
  | .closeArray, .commaOrClose, .array items :: frames => some ({ r with frames }.give (.array items.reverse))
  | .closeObject, .nameOrClose, .object members _ :: frames =>
    some ({ r with frames }.give (.object members.reverse))
  | .closeObject, .commaOrClose, .object members _ :: frames =>
    some ({ r with frames }.give (.object members.reverse))
  | _, _, _ => none

/-- The complete values, and the fault that ended the reading if one did. -/
def finish (r : JsonReading) (fault : Option JsonFault) : List JsonToken → List Json × Option JsonFault
  | [] => (r.done.reverse, if fault.isSome then fault else if r.frames.isEmpty then none else some .malformed)
  | t :: rest =>
    match r.token? t with
    | some r => r.finish fault rest
    | none => (r.done.reverse, some .malformed)

end JsonReading

/-- The values of a text, one after another, up to the first fault. -/
def jsonValues (text : Bytes) : List Json × Option JsonFault :=
  let gs := glyphs text
  let (tokens, fault) := jsonTokens gs.length gs
  JsonReading.finish ⟨[], [], .value⟩ fault tokens

end StackMachine
