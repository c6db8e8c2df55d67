import StackMachine.Binary64.Format

namespace StackMachine

/-- One value of a frame, as seen by a row. -/
inductive Entry where
  | missing
  | int (v : Int64)
  | float (v : Binary64)
  | text (t : Bytes)
  deriving DecidableEq

/-- The text of an entry, none when it is missing. -/
def Entry.text? : Entry → Option Bytes
  | .missing => none
  | .int v => some (value v)
  | .float v => some (v.text .column)
  | .text t => some t

def missingText : Bytes := utf8 "NaN"

/-- The text of an entry where a missing one has to be shown. -/
def Entry.shown (e : Entry) : Bytes := e.text?.getD missingText

inductive Series where
  | ints (values : List (Option Int64))
  | floats (values : List (Option Binary64))
  | texts (values : List (Option Bytes))
  deriving DecidableEq

namespace Series

def typeName : Series → Bytes
  | .ints _ => utf8 "int64"
  | .floats _ => utf8 "float64"
  | .texts _ => utf8 "string"

def size : Series → Nat
  | .ints values => values.length
  | .floats values => values.length
  | .texts values => values.length

/-- The entry of a value that may be missing. -/
def entry {α : Type} (wrap : α → Entry) : Option α → Entry
  | none => .missing
  | some v => wrap v

def entries : Series → List Entry
  | .ints values => values.map (entry .int)
  | .floats values => values.map (entry .float)
  | .texts values => values.map (entry .text)

end Series

structure Column where
  name : Bytes
  series : Series
  deriving DecidableEq

structure Frame where
  columns : List Column
  deriving DecidableEq

/-- The first `n` rows across columns, with a filler where a column is too short. -/
def across {α : Type} (filler : α) : Nat → List (List α) → List (List α)
  | 0, _ => []
  | n + 1, columns => columns.map (·.headD filler) :: across filler n (columns.map List.tail)

namespace Frame

def names (f : Frame) : List Bytes := f.columns.map Column.name

/-- The number of rows, which is that of the first column. -/
def rowCount (f : Frame) : Nat := ((f.columns.map fun c => c.series.size).head?).getD 0

def rows (f : Frame) : List (List Entry) := across .missing f.rowCount (f.columns.map fun c => c.series.entries)

end Frame

end StackMachine
