import StackMachine.Frame.Format
import StackMachine.Frame.Inference

namespace StackMachine

/-- Members of an object with the members of inner objects in their place, named by their path. Arrays stay values. -/
def Json.flattened (path : Bytes) : Json → List (Bytes × Json)
  | .object members => flattenMembers path members
  | v => [(path, v)]
where
  /-- The members of one object; the outermost has an empty path. -/
  flattenMembers (path : Bytes) : List (Bytes × Json) → List (Bytes × Json)
    | [] => []
    | (name, v) :: rest =>
      v.flattened (if path.isEmpty then name else path ++ utf8 "." ++ name) ++ flattenMembers path rest

/-- A value as messages show it. -/
def Json.shown : Json → Bytes
  | .null => utf8 "<nil>"
  | .bool b => utf8 (if b then "true" else "false")
  | .number v => v.text .column
  | .text t => t
  | .array _ => utf8 "["
  | .object _ => utf8 "\x7b"

/-- The name of a kind of value. -/
def Json.kindText : Json → Bytes
  | .null => utf8 "null"
  | .bool _ => utf8 "bool"
  | .number _ => utf8 "number"
  | .text _ => utf8 "string"
  | .array _ => utf8 "array"
  | .object _ => utf8 "object"

def Json.isNested : Json → Bool
  | .array _ => true
  | .object _ => true
  | _ => false

def truthInt (b : Bool) : Int64 := if b then 1 else 0

/-- A column of integers takes truth values and the whole part of numbers. -/
def Json.int? : Json → Option Int64
  | .bool b => some (truthInt b)
  | .number v => v.truncated?.map Int64.ofInt
  | .text t => decimalInt? t
  | _ => none

def Json.float? : Json → Option Binary64
  | .bool b => some (.finite false (if b then Binary64.fullMantissa else 0) (if b then -52 else Binary64.minExponent))
  | .number v => some v
  | .text t => (floatOfText? t).join
  | _ => none

/-- A column of texts takes everything. -/
def Json.text? : Json → Option Bytes
  | .bool b => some (utf8 (if b then "true" else "false"))
  | .number v => some (v.text .inText)
  | .text t => some t
  | _ => none

/-- The values of one column, with the type that the first one gives. -/
def Series.ofJson (values : List Json) : Series :=
  match values.head? with
  | some (.bool _) => .ints (values.map Json.int?)
  | some (.number _) => .floats (values.map Json.float?)
  | _ => .texts (values.map Json.text?)

/-- The latest member of a name; without one the value is missing. -/
def memberValue (members : List (Bytes × Json)) (name : Bytes) : Json :=
  ((members.reverse.find? fun m => m.1 == name).map Prod.snd).getD .null

/-- The values of a row, unless one of them is no scalar. -/
def scalarRow (row : Nat) (values : List Json) : Except FrameError (List Json) :=
  if values.any Json.isNested then .error (.nestedValue row) else .ok values

/-- The members of a row; nothing stands for a row without members. -/
def rowMembers : Json → Except FrameError (List (Bytes × Json))
  | .object members => .ok (Json.flattened [] (.object members))
  | .null => .ok []
  | v => .error (.notAnObject v.kindText)

/-- The items of a row, as many as there are names. -/
def rowItems (width row : Nat) : Json → Except FrameError (List Json)
  | .array items => if items.length = width then scalarRow row items else .error (.rowWidth row)
  | v => .error (.notAnObject v.kindText)

/-- The frame of rows that all have a value for each name. -/
def frameOfValues (names : List Bytes) (rows : List (List Json)) : Except FrameError Frame :=
  if names.isEmpty || rows.isEmpty then .error .noRows
  else .ok ⟨(names.zip (across .null names.length rows)).map fun (name, values) => ⟨name, .ofJson values⟩⟩

/-- Different names in their order. -/
def sortedNames (names : List Bytes) : List Bytes := names.eraseDups.mergeSort

def frameOfObjects (rows : List Json) : Except FrameError Frame := do
  let members ← rowMembers (rows.headD .null)
  let _ ← scalarRow 0 (members.map Prod.snd)
  let names := sortedNames (members.map Prod.fst)
  let values ← rows.zipIdx.mapM fun (v, row) => do
    let members ← rowMembers v
    scalarRow row (names.map (memberValue members))
  frameOfValues names values

/-- A series name. -/
def seriesName : Json → Except FrameError Bytes
  | .text name => .ok name
  | _ => .error .noNames

def frameOfArrays (heading : List Json) (rows : List Json) : Except FrameError Frame := do
  let names ← heading.mapM seriesName
  frameOfValues names (← rows.zipIdx.mapM fun (v, row) => rowItems names.length row v)

def frameOfJson (values : List Json) : Except FrameError Frame :=
  match values with
  | [] => .error .noRows
  | .object members :: rest => frameOfObjects (.object members :: rest)
  | .array [] :: _ => .error .noRows
  | .array (.object members :: items) :: _ => frameOfObjects (.object members :: items)
  | .array heading :: rest => frameOfArrays heading rest
  | v :: _ => .error (.invalidInput v.shown)

/-- Reads a frame; a fault further down is only met when the rows before it are in order. -/
def readJsonFrame (text : Bytes) : Except FrameError Frame :=
  let (values, fault) := jsonValues text
  match frameOfJson values, fault with
  | .ok _, some fault => .error (.json fault)
  | .error .noRows, some fault => .error (.json fault)
  | result, _ => result

end StackMachine
