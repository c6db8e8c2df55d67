import StackMachine.Binary64.Read
import StackMachine.Frame

namespace StackMachine

/-- A decimal integer of 64 bits. -/
def decimalInt? (text : Bytes) : Option Int64 :=
  let (_, digits) := splitSign text
  if digits.all isDigitByte && digits.head? ≠ none then
    let n := digitsValue digits
    if text.head? = some (byte '-') then
      if n ≤ wordBound then some (Int64.ofInt (-n)) else none
    else if n < wordBound then some (Int64.ofNat n) else none
  else none

def truth? (text : Bytes) : Option Int64 :=
  if text = utf8 "true" ∨ text = utf8 "TRUE" ∨ text = utf8 "True" then some 1
  else if text = utf8 "false" ∨ text = utf8 "FALSE" ∨ text = utf8 "False" then some 0
  else none

def intOfText? (text : Bytes) : Option Int64 := truth? text <|> decimalInt? text

/-- A double; the text for "not a number" is a missing value. -/
def floatOfText? (text : Bytes) : Option (Option Binary64) :=
  match readFloat text with
  | .number v => some (some v)
  | .notANumber => some none
  | _ => none

/-- Applies a reading to every value that is there. -/
def readEntries {α : Type} (read : Bytes → Option (Option α)) (values : List (Option Bytes)) : Option (List (Option α)) :=
  values.mapM fun
    | none => some none
    | some text => read text

/-- The column of some texts, given which of them are read as integers and doubles. -/
def Series.inferBy (int? : Bytes → Option Int64) (float? : Bytes → Option (Option Binary64))
    (values : List (Option Bytes)) : Series :=
  match readEntries (fun text => (int? text).map some) values with
  | some values => .ints values
  | none =>
    match readEntries float? values with
    | some values => .floats values
    | none => .texts values

def Series.infer : List (Option Bytes) → Series := inferBy intOfText? floatOfText?

/-- The frame of rows of texts under names, given the column that some texts make. -/
def Frame.ofRecords (infer : List (Option Bytes) → Series) (names : List Bytes) (rows : List (List Bytes)) : Frame :=
  ⟨(names.zip (across [] names.length rows)).map fun (name, texts) =>
    ⟨name, infer (texts.map fun t => if t = missingText then none else some t)⟩⟩

end StackMachine
