import StackMachine.Text.Split
import StackMachine.Text.Utf8

namespace StackMachine

/-- The width of a text in characters. -/
def textWidth (text : Bytes) : Nat := (glyphs text).length

/-- A way to set some words in lines. -/
structure Breaks where
  cost : Nat
  lines : List (List Bytes)

/-- Added to the cost of a line that is too long. -/
def overlongCost : Nat := 100000

/-- Every line costs less than this. -/
def unboundedCost : Nat := 2147483647

def lineCost (limit width : Nat) : Nat :=
  if width ≤ limit then Nat.pow (limit - width) 2 else Nat.pow (width - limit) 2 + overlongCost

/-- The best of the ways to end the first line after `line` (last word first), or after more of the words that follow.
`later` has the best breaks after each possible end; of equal ones the shortest first line is kept. -/
def bestEnd (limit : Nat) (line : List Bytes) (width : Nat) (best : Breaks) : List Bytes → List Breaks → Breaks
  | word :: rest, after :: later =>
    let cost := lineCost limit width + after.cost
    let best := if cost < best.cost then ⟨cost, line.reverse :: after.lines⟩ else best
    bestEnd limit (word :: line) (width + 1 + textWidth word) best rest later
  | _, _ => best

/-- The width of words on one line. -/
def lineWidth (words : List Bytes) : Nat := (words.map textWidth).foldr (· + ·) 0 + (words.length - 1)

/-- The best breaks for the words and for each of their ends, the longest first. -/
def breaksOf (limit : Nat) : List Bytes → List Breaks
  | [] => []
  | word :: rest =>
    let later := breaksOf limit rest
    (if lineWidth (word :: rest) ≤ limit then ⟨0, [word :: rest]⟩
      else bestEnd limit [word] (textWidth word) ⟨unboundedCost, []⟩ rest later) :: later

def widest (texts : List Bytes) : Nat := (texts.map textWidth).foldl max 0

/-- The lines of a paragraph, at most `limit` wide unless a word is wider. -/
def wrapped (limit : Nat) (text : Bytes) : List Bytes :=
  let parts := splitOn (byte ' ') (text.map fun c => if c = newline then byte ' ' else c)
  match breaksOf (max limit (widest parts)) parts with
  | best :: _ => best.lines.map (joined (utf8 " "))
  | [] => []

end StackMachine
