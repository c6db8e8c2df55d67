import StackMachine.Frame.Inference

namespace StackMachine

/-- A text with its length before it. -/
def measured (text : Bytes) : Bytes := decimalNat text.length ++ utf8 ":" ++ text

/-- A text with its length before it, and what follows. -/
def readMeasured? (text : Bytes) : Option (Bytes × Bytes) :=
  let digits := text.takeWhile isDigitByte
  match text.dropWhile isDigitByte with
  | [] => none
  | c :: rest =>
    let n := digitsValue digits
    if c = byte ':' ∧ !digits.isEmpty ∧ n ≤ rest.length then some (rest.take n, rest.drop n) else none

/-- As many measured texts as asked for, and what follows. -/
def readTexts? : Nat → Bytes → Option (List Bytes × Bytes)
  | 0, text => some ([], text)
  | n + 1, text => do
    let (first, rest) ← readMeasured? text
    let (others, rest) ← readTexts? n rest
    some (first :: others, rest)

/-- A double by its parts. -/
def Binary64.parts : Binary64 → Bytes
  | .infinite negative => utf8 (if negative then "-i" else "+i")
  | .finite negative mantissa exponent =>
    utf8 (if negative then "-" else "+") ++ decimalNat mantissa ++ utf8 "p" ++ decimal exponent

def Binary64.ofParts? (text : Bytes) : Option Binary64 :=
  let negative := text.head? = some (byte '-')
  let rest := text.drop 1
  if rest = utf8 "i" then some (.infinite negative)
  else
    let exponent := rest.dropWhile isDigitByte
    match decimalInt? (exponent.drop 1) with
    | some e => some (.finite negative (digitsValue (rest.takeWhile isDigitByte)) e.toInt)
    | none => none

/-- A value that may be missing. -/
def presence {α : Type} (write : α → Bytes) : Option α → Bytes
  | none => utf8 "-"
  | some v => utf8 "+" ++ write v

def readPresence? {α : Type} (read : Bytes → Option α) (text : Bytes) : Option (Option α) :=
  if text = utf8 "-" then some none else (read (text.drop 1)).map some

def Series.written : Series → List Bytes
  | .ints values => values.map (presence value)
  | .floats values => values.map (presence Binary64.parts)
  | .texts values => values.map (presence id)

/-- The series of a type, from the texts of its values. -/
def Series.ofTexts? (typeName : Bytes) (texts : List Bytes) : Option Series :=
  if typeName = utf8 "int64" then (texts.mapM (readPresence? decimalInt?)).map .ints
  else if typeName = utf8 "float64" then (texts.mapM (readPresence? Binary64.ofParts?)).map .floats
  else (texts.mapM (readPresence? some)).map .texts

def Column.columnar (c : Column) : Bytes :=
  measured c.name ++ measured c.series.typeName ++ measured (decimalNat c.series.size) ++
    c.series.written.flatMap measured

def Frame.columnar (f : Frame) : Bytes :=
  measured (decimalNat f.columns.length) ++ f.columns.flatMap Column.columnar

def readColumn? (text : Bytes) : Option (Column × Bytes) := do
  let (name, rest) ← readMeasured? text
  let (typeName, rest) ← readMeasured? rest
  let (count, rest) ← readMeasured? rest
  let (texts, rest) ← readTexts? (digitsValue count) rest
  let series ← Series.ofTexts? typeName texts
  some (⟨name, series⟩, rest)

def readColumns? : Nat → Bytes → Option (List Column)
  | 0, _ => some []
  | n + 1, text => do
    let (column, rest) ← readColumn? text
    let others ← readColumns? n rest
    some (column :: others)

def readColumnar? (text : Bytes) : Option Frame := do
  let (count, rest) ← readMeasured? text
  let columns ← readColumns? (digitsValue count) rest
  some ⟨columns⟩

end StackMachine
