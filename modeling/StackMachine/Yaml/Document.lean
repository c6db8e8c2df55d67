import StackMachine.Text.Number
import StackMachine.Text.Split
import StackMachine.Yaml.Node

namespace StackMachine

/-- A line with content: its number, its indentation, and what follows. -/
structure YamlLine where
  number : Nat
  indent : Nat
  text : Bytes

namespace YamlLine

def ofText (number : Nat) (text : Bytes) : YamlLine :=
  let text := if text.getLast? = some (byte '\r') then text.dropLast else text
  ⟨number, (text.takeWhile (· == byte ' ')).length, text.dropWhile (· == byte ' ')⟩

/-- Whether there is nothing but a comment on the line. -/
def isEmpty (l : YamlLine) : Bool := ((l.text.dropWhile isGap).head?.map (· == byte '#')).getD true

/-- Whether the line starts with a mark of three bytes. -/
def startsWith (mark : Bytes) (l : YamlLine) : Bool :=
  l.indent == 0 && mark.isPrefixOf l.text && ((l.text.drop 3).head?.map isGap).getD true

def isStart (l : YamlLine) : Bool := l.startsWith (utf8 "---")

def isEnd (l : YamlLine) : Bool := l.isStart || l.startsWith (utf8 "...")

/-- Whether the line is an item of a sequence. -/
def isItem (l : YamlLine) : Bool :=
  l.text.head? == some (byte '-') && ((l.text.drop 1).head?.map isGap).getD true

def marks (l : YamlLine) : List Mark := (l.text ++ [newline]).map fun c => ⟨c, l.number⟩

end YamlLine

/-- The part of a plain text before its comment, without gaps at its end. `text` is held last byte first. -/
def beforeComment (text : Bytes) : Bytes → Bytes
  | [] => (text.dropWhile isGap).reverse
  | c :: rest =>
    if c = byte '#' ∧ (text.head?.map isGap).getD true then (text.dropWhile isGap).reverse
    else beforeComment (c :: text) rest

/-- A plain name up to its colon, and what follows. `text` is held last byte first. -/
def plainName? (text : Bytes) : Bytes → Option (Bytes × Bytes)
  | [] => none
  | c :: rest =>
    if c = byte ':' ∧ (rest.head?.map isGap).getD true then some ((text.dropWhile isGap).reverse, rest)
    else if c = byte '#' ∧ (text.head?.map isGap).getD true then none
    else plainName? (c :: text) rest

/-- Bytes that no plain scalar starts with. -/
def isReserved (c : UInt8) : Bool :=
  (utf8 "&*!|>%@").contains c || c == 0x60

def opensFlow (c : UInt8) : Bool :=
  c == byte '[' || c == byte '\x7b' || c == byte '"' || c == byte '\''

/-- The name that a line starts with, and the text after its colon. -/
def YamlLine.name? (l : YamlLine) : Option (YamlNode × Bytes) :=
  match l.text with
  | [] => none
  | c :: _ =>
    if c = byte '"' ∨ c = byte '\'' then do
      let (name, rest) ← Mark.quoted? l.marks
      match rest.dropWhile fun m => isGap m.code with
      | m :: rest =>
        if m.code = byte ':' ∧ endsHere rest then some (name, (rest.map Mark.code).dropLast) else none
      | [] => none
    else if opensFlow c then none
    else (plainName? [] l.text).map fun (name, rest) => (.scalar l.number false name, rest)

/-- A value in quotes or brackets that starts in the text, and the lines after it. -/
def spanningValue? (number : Nat) (text : Bytes) (lines : List YamlLine) : Option (YamlNode × List YamlLine) := do
  let marks := (YamlLine.mk number 0 text).marks ++ lines.flatMap YamlLine.marks
  let (node, rest) ← Mark.flowNode (marks.length + 1) marks
  let last := (rest.head?.map Mark.line).getD 0
  let trailing := (rest.takeWhile fun m => m.line == last).map Mark.code
  if rest.isEmpty then some (node, [])
  else if ((trailing.dropWhile isGap).head?.map fun c => c == newline || c == byte '#').getD true then
    some (node, lines.dropWhile fun l => l.number ≤ last)
  else none

/-- A value that starts in the text of a line. A plain one goes on over lines that are indented by `least` or more. -/
def inlineValue? (number least : Nat) (text : Bytes) (lines : List YamlLine) : Option (YamlNode × List YamlLine) :=
  match text with
  | [] => none
  | c :: _ =>
    if opensFlow c then spanningValue? number text lines
    else if isReserved c then none
    else
      let more := lines.takeWhile fun l => least ≤ l.indent
      let texts := (text :: more.map YamlLine.text).map (beforeComment [])
      some (.scalar number false (joined (utf8 " ") texts), lines.drop more.length)

/-- A value on a line of its own. -/
def loneValue? (l : YamlLine) (rest : List YamlLine) : Option (YamlNode × List YamlLine) :=
  inlineValue? l.number l.indent l.text rest

mutual

/-- The node that starts on the first of the lines, and the lines after it; `fuel` bounds the nodes that are read. -/
def blockNode? : (fuel : Nat) → List YamlLine → Option (YamlNode × List YamlLine)
  | 0, _ => none
  | _ + 1, [] => none
  | fuel + 1, l :: rest =>
    if l.isItem then
      some (.sequence l.number, rest.dropWhile fun m => l.indent < m.indent || (m.indent == l.indent && m.isItem))
    else if l.name?.isSome then
      (blockPairs? l.indent fuel [] (l :: rest)).map fun (pairs, rest) => (.mapping l.number pairs, rest)
    else loneValue? l rest

/-- The pairs of a mapping at some indentation, those read so far last first. -/
def blockPairs? (indent : Nat) :
    (fuel : Nat) → List (YamlNode × YamlNode) → List YamlLine → Option (List (YamlNode × YamlNode) × List YamlLine)
  | 0, _, _ => none
  | _ + 1, pairs, [] => some (pairs.reverse, [])
  | fuel + 1, pairs, l :: rest =>
    if l.indent ≠ indent then some (pairs.reverse, l :: rest)
    else match l.name? with
      | none => none
      | some (name, after) => do
        let (value, rest) ← pairValue? l fuel (after.dropWhile isGap) rest
        blockPairs? indent fuel ((name, value) :: pairs) rest

/-- The value of a name: on its own line, or on the lines below. -/
def pairValue? (l : YamlLine) : (fuel : Nat) → Bytes → List YamlLine → Option (YamlNode × List YamlLine)
  | 0, _, _ => none
  | fuel + 1, text, rest =>
    if (beforeComment [] text).isEmpty then
      match rest with
      | m :: _ =>
        if l.indent < m.indent ∨ (m.indent = l.indent ∧ m.isItem) then blockNode? fuel rest
        else some (.scalar l.number false [], rest)
      | [] => some (.scalar l.number false [], [])
    else inlineValue? l.number (l.indent + 1) text rest

end

/-- A mark that may stand in front of a text and is no part of it. -/
def byteOrderMark : Bytes := [0xEF, 0xBB, 0xBF]

/-- The lines of the first document that have content. -/
def documentLines (text : Bytes) : List YamlLine :=
  let text := stripLeading byteOrderMark text
  let lines := (splitOn newline text).zipIdx.map fun (text, i) => YamlLine.ofText (i + 1) text
  let lines := lines.dropWhile fun l => l.isEmpty || (l.indent == 0 && l.text.head? == some (byte '%'))
  let lines := match lines with
    | [] => []
    | l :: rest =>
      if l.isStart then
        let content := l.text.drop 3
        { l with indent := 3 + (content.takeWhile isGap).length, text := content.dropWhile isGap } :: rest
      else l :: rest
  (lines.takeWhile fun l => !l.isEnd).filter fun l => !l.isEmpty

/-- Why a text is no YAML. -/
inductive YamlFault where
  | malformed (line : Nat)
  deriving DecidableEq

def YamlFault.message : YamlFault → Bytes
  | .malformed line => utf8 "yaml: line " ++ decimalNat line ++ utf8 ": did not find expected node content"

/-- The node of the first document, none when it is empty. -/
def readYaml (text : Bytes) : Except YamlFault (Option YamlNode) :=
  let lines := documentLines text
  match lines with
  | [] => .ok none
  | first :: _ =>
    match blockNode? (3 * lines.length + 3) lines with
    | some (node, []) => .ok (some node)
    | some (_, l :: _) => .error (.malformed l.number)
    | none => .error (.malformed first.number)

end StackMachine
