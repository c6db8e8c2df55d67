import StackMachine.Frame.Csv

namespace StackMachine

/-- A place in the text, both counted from one; the column counts bytes. -/
structure Place where
  line : Nat
  column : Nat
  deriving DecidableEq

inductive CsvFault where
  /-- A quote inside a field that does not start with one. -/
  | bareQuote (start : Nat) (place : Place)
  /-- Something other than a comma or line end after a closing quote, or no closing quote. -/
  | strayQuote (start : Nat) (place : Place)
  | fieldCount (line : Nat)
  deriving DecidableEq

/-- The place of a fault, with the line where its record starts when that is another one. -/
def placeText (start : Nat) (place : Place) : Bytes :=
  (if start = place.line then [] else utf8 "record on line " ++ decimalNat start ++ utf8 "; ") ++
    utf8 "parse error on line " ++ decimalNat place.line ++ utf8 ", column " ++ decimalNat place.column ++ utf8 ": "

def CsvFault.message : CsvFault → Bytes
  | .bareQuote start place => placeText start place ++ utf8 "bare \" in non-quoted-field"
  | .strayQuote start place => placeText start place ++ utf8 "extraneous or missing \" in quoted-field"
  | .fieldCount line => utf8 "record on line " ++ decimalNat line ++ utf8 ": wrong number of fields"

/-- Drops the carriage return before each line feed and before the end. -/
def lineFeeds : Bytes → Bytes
  | [] => []
  | [c] => if c = carriageReturn then [] else [c]
  | c :: d :: rest => if c = carriageReturn ∧ d = newline then lineFeeds (d :: rest) else c :: lineFeeds (d :: rest)

structure CsvRecord where
  /-- The line on which the record starts. -/
  line : Nat
  fields : List Bytes
  deriving DecidableEq

/-- The records before the first fault. -/
structure CsvText where
  records : List CsvRecord
  fault : Option CsvFault
  deriving DecidableEq

inductive FieldState where
  | start
  | bare
  | quoted
  /-- After a quote in a quoted field: the field ends, or the quote is doubled. -/
  | closed
  deriving DecidableEq

/-- A record being read. Its finished fields and the bytes of the field are held last first. -/
structure CsvScan where
  start : Nat
  place : Place
  state : FieldState
  fields : List Bytes
  field : Bytes

namespace CsvScan

def atLine (line : Nat) : CsvScan := ⟨line, ⟨line, 1⟩, .start, [], []⟩

def record (s : CsvScan) : CsvRecord := ⟨s.start, (s.field.reverse :: s.fields).reverse⟩

/-- One byte further on the line. -/
def moved (s : CsvScan) (state : FieldState) : CsvScan :=
  { s with place.column := s.place.column + 1, state }

def taking (s : CsvScan) (c : UInt8) (state : FieldState) : CsvScan :=
  { s.moved state with field := c :: s.field }

def nextField (s : CsvScan) : CsvScan :=
  { s.moved .start with fields := s.field.reverse :: s.fields, field := [] }

/-- Reads on from a record in progress. -/
def read (s : CsvScan) : Bytes → CsvText
  | [] =>
    match s.state with
    | .start => ⟨if s.fields.isEmpty then [] else [s.record], none⟩
    | .quoted => ⟨[], some (.strayQuote s.start s.place)⟩
    | _ => ⟨[s.record], none⟩
  | c :: rest =>
    match s.state with
    | .quoted =>
      if c = quoteMark then (s.moved .closed).read rest
      else if c = newline ∧ rest ≠ [] then
        { s with place := ⟨s.place.line + 1, 1⟩, field := c :: s.field }.read rest
      else (s.taking c .quoted).read rest
    | .closed =>
      if c = quoteMark then (s.taking c .quoted).read rest
      else if c = comma then s.nextField.read rest
      else if c = newline then
        let later := (atLine (s.place.line + 1)).read rest
        ⟨s.record :: later.records, later.fault⟩
      else ⟨[], some (.strayQuote s.start { s.place with column := s.place.column - 1 })⟩
    | state =>
      if c = comma then s.nextField.read rest
      else if c = newline then
        let later := (atLine (s.place.line + 1)).read rest
        ⟨if state = .start ∧ s.fields = [] then later.records else s.record :: later.records, later.fault⟩
      else if c = quoteMark then
        if state = .start then (s.moved .quoted).read rest else ⟨[], some (.bareQuote s.start s.place)⟩
      else (s.taking c .bare).read rest

end CsvScan

def readCsv (text : Bytes) : CsvText := (CsvScan.atLine 1).read (lineFeeds text)

/-- The fields of every record, which all need as many as the first. A record that has not is reported before a fault
further down. -/
def CsvText.fields (t : CsvText) : Except CsvFault (List (List Bytes)) :=
  let width := ((t.records.map fun r => r.fields.length).head?).getD 0
  match t.records.find? fun r => r.fields.length != width, t.fault with
  | some r, _ => .error (.fieldCount r.line)
  | none, some fault => .error fault
  | none, none => .ok (t.records.map CsvRecord.fields)

end StackMachine
