import StackMachine.Frame
import StackMachine.Text.Blank

namespace StackMachine

def carriageReturn : UInt8 := byte '\r'

def quoteMark : UInt8 := byte '"'

def comma : UInt8 := byte ','

/-- Whether a field has to stand in quotes. -/
def needsQuotes (field : Bytes) : Bool :=
  field == utf8 "\\." || field.any (fun c => c == newline || c == carriageReturn || c == quoteMark || c == comma) ||
    (glyphs field).head?.any Glyph.isBlank

/-- In quotes a quote is written twice. -/
def doubledQuotes (field : Bytes) : Bytes := field.flatMap fun c => if c = quoteMark then [c, c] else [c]

def csvField (field : Bytes) : Bytes :=
  if needsQuotes field then [quoteMark] ++ doubledQuotes field ++ [quoteMark] else field

def csvLine (fields : List Bytes) : Bytes := joined [comma] (fields.map csvField) ++ [newline]

def Frame.csv (f : Frame) : Bytes := csvLine f.names ++ f.rows.flatMap fun row => csvLine (row.map Entry.shown)

end StackMachine
