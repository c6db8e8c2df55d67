import StackMachine.EngineRun
import StackMachine.Frame.CsvText
import StackMachine.Json
import StackMachine.Text.Case
import StackMachine.Text.Quoted

namespace StackMachine

inductive Format where
  | table
  | csv
  | json
  /-- Column after column, only in files. -/
  | columnar
  deriving DecidableEq

/-- Why a file cannot be had. -/
inductive FileFault where
  | missing
  /-- A folder cannot be written to. -/
  | directory
  /-- A part of the path that should be a folder is a file. -/
  | notDirectory
  /-- A folder can be opened but has no content. -/
  | noContent
  deriving DecidableEq

/-- What can go wrong when a frame is written or read. -/
inductive FrameError where
  | unknownFormat (name : Bytes)
  | unknownExtension (path : Bytes)
  | notLoadable (format : Format)
  | needsFile
  | emptyFile
  | noRows
  | interrupted (why : Interruption)
  | unsupportedNumber (v : Binary64)
  | file (path : Bytes) (fault : FileFault)
  | csv (fault : CsvFault)
  | json (fault : JsonFault)
  | invalidInput (token : Bytes)
  | nestedValue (row : Nat)
  | rowWidth (row : Nat)
  | noNames
  | notAnObject (found : Bytes)
  | damaged
  deriving DecidableEq

namespace Format

def text : Format → Bytes
  | .table => utf8 "table"
  | .csv => utf8 "csv"
  | .json => utf8 "json"
  | .columnar => utf8 "parquet"

/-- The format with exactly this name. -/
def ofText? (name : Bytes) : Option Format := [Format.table, .csv, .json, .columnar].find? fun f => f.text == name

/-- The format a user names, in any case and with blanks around; the table when nothing is named. -/
def ofName (name : Bytes) : Except FrameError Format :=
  let key := lower (trimmed name)
  if key.isEmpty then .ok .table
  else match ofText? key with
    | some format => .ok format
    | none => .error (.unknownFormat name)

/-- What follows the last point of the last part of a path, with the point; empty without one. -/
def extensionOf (path : Bytes) : Bytes :=
  let last := (path.reverse.takeWhile (· != byte '/'))
  if last.contains (byte '.') then byte '.' :: (last.takeWhile (· != byte '.')).reverse else []

def ofPath (path : Bytes) : Except FrameError Format :=
  let key := lower (extensionOf path)
  if key = utf8 ".csv" then .ok .csv
  else if key = utf8 ".json" ∨ key = utf8 ".jsonl" then .ok .json
  else if key = utf8 ".parquet" then .ok .columnar
  else if key = utf8 ".txt" then .ok .table
  else .error (.unknownExtension path)

end Format

def FileFault.message (path : Bytes) : FileFault → Bytes
  | .missing => utf8 "open " ++ path ++ utf8 ": no such file or directory"
  | .directory => utf8 "open " ++ path ++ utf8 ": is a directory"
  | .notDirectory => utf8 "open " ++ path ++ utf8 ": not a directory"
  | .noContent => utf8 "read " ++ path ++ utf8 ": is a directory"

namespace FrameError

def message : FrameError → Bytes
  | .unknownFormat name => utf8 "unknown format: " ++ quoted name
  | .unknownExtension path => utf8 "unknown format: extension of " ++ quoted path
  | .notLoadable format => utf8 "unknown format: " ++ format.text ++ utf8 " cannot be loaded"
  | .needsFile => utf8 "format can only be written to a file"
  | .emptyFile => utf8 "empty frame file"
  | .noRows => utf8 "contains no rows"
  | .interrupted why => why.message
  | .unsupportedNumber v => utf8 "json: unsupported value: " ++ v.text .column
  | .file path fault => fault.message path
  | .csv fault => fault.message
  | .json fault => fault.message
  | .invalidInput token => utf8 "invalid input: " ++ token
  | .nestedValue row => utf8 "row: " ++ decimalNat row ++ utf8 " - array or object detected for value"
  | .rowWidth row => utf8 "too many or too few values found in row: " ++ decimalNat row ++ utf8 " (line: " ++
      decimalNat (row + 2) ++ utf8 ")"
  | .noNames => utf8 "first row must contain an array of series names"
  | .notAnObject found => utf8 "json: cannot unmarshal " ++ found ++
      utf8 " into Go value of type map[string]interface \x7b\x7d"
  | .damaged => utf8 "damaged frame file"

end FrameError

end StackMachine
