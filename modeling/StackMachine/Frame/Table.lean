import StackMachine.Frame
import StackMachine.Frame.Paragraph
import StackMachine.Text.Blank
import StackMachine.Text.Case
import StackMachine.Text.Split

namespace StackMachine

/-- A cell set in lines. -/
structure CellLayout where
  lines : List Bytes
  width : Nat

/-- No line is made longer than this many characters, words apart. -/
def preferredWidth : Nat := 30

def CellLayout.ofText (text : Bytes) : CellLayout :=
  let limit := min preferredWidth (widest (splitOn newline text))
  let lines := wrapped limit text
  ⟨lines, max limit (widest lines)⟩

def isNumberPart (code : Nat) : Bool := (48 ≤ code && code ≤ 57) || code == 32

/-- Blanks for underscores, and for points that do not belong to a number. `before` is the code before the text. -/
def titleCodes (before : Option Nat) : List Nat → List Nat
  | [] => []
  | code :: rest =>
    let code :=
      if code == 95 then 32
      else if code == 46 && (before.any (!isNumberPart ·) || rest.head?.any (!isNumberPart ·)) then 32
      else code
    code :: titleCodes (some code) rest

/-- A line of the first or last row: capitals, and at least a blank if the line was not empty. -/
def titleLine (line : Bytes) : Bytes :=
  let codes := titleCodes none ((glyphs line).map Glyph.code)
  let title := trimmed (codes.flatMap fun code => String.utf8EncodeChar (Char.ofNat code))
  if title.isEmpty && !line.isEmpty then utf8 " " else upper title

def CellLayout.titled (s : CellLayout) : CellLayout := { s with lines := s.lines.map titleLine }

def spaces (n : Nat) : Bytes := List.replicate n (byte ' ')

/-- Centred; of an odd gap the larger half is on the right. -/
def centred (width : Nat) (line : Bytes) : Bytes :=
  let gap := width - textWidth line
  spaces (gap / 2) ++ line ++ spaces (gap - gap / 2)

/-- One text line across a row. -/
def tableLine (cells : List Bytes) : Bytes :=
  utf8 "| " ++ joined (utf8 " | ") cells ++ utf8 " |\n"

/-- A row as high as its highest cell. -/
def tableRow (widths : List Nat) (cells : List CellLayout) : Bytes :=
  let height := (cells.map fun c => c.lines.length).foldl max 0
  (List.range height).flatMap fun i =>
    tableLine (cells.zipWith (fun c width => centred width ((c.lines[i]?).getD [])) widths)

def tableRule (widths : List Nat) : Bytes :=
  utf8 "+" ++ widths.flatMap (fun width => List.replicate (width + 2) (byte '-') ++ utf8 "+") ++ utf8 "\n"

/-- The widest cell of each column. -/
def columnWidths (first : List CellLayout) (others : List (List CellLayout)) : List Nat :=
  others.foldl (fun widths row => widths.zipWith (fun width c => max width c.width) row)
    (first.map CellLayout.width)

namespace Frame

def table (f : Frame) : Bytes :=
  let heading := ([] :: f.names).map CellLayout.ofText
  let body := f.rows.zipIdx.map fun (row, i) => ((decimalNat i ++ utf8 ":") :: row.map Entry.shown).map CellLayout.ofText
  let size := decimalNat f.rowCount ++ utf8 "x" ++ decimalNat f.columns.length
  let footing := (size :: f.columns.map fun c => c.series.typeName).map CellLayout.ofText
  let widths := columnWidths heading (footing :: body)
  let rule := tableRule widths
  rule ++ tableRow widths (heading.map CellLayout.titled) ++ rule ++ body.flatMap (tableRow widths) ++ rule ++
    tableRow widths (footing.map CellLayout.titled) ++ rule

end Frame

end StackMachine
