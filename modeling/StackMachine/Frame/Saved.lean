import StackMachine.Folder
import StackMachine.Frame.Columnar
import StackMachine.Frame.FromJson
import StackMachine.Frame.JsonLines
import StackMachine.Frame.Table

namespace StackMachine

/-- What a library makes of frames: a table to look at, and a text to write and read for each format of files. -/
class FrameFormats where
  table : Frame → Bytes
  writeCsv : Context → Frame → Written
  writeJson : Context → Frame → Written
  writeColumnar : Context → Frame → Written
  readCsv : Context → Bytes → Except FrameError Frame
  readJson : Context → Bytes → Except FrameError Frame
  readColumnar : Context → Bytes → Except FrameError Frame

namespace Frame

def write [FrameFormats] (f : Frame) (context : Context) : Format → Written
  | .table => ⟨FrameFormats.table f, none⟩
  | .csv => FrameFormats.writeCsv context f
  | .json => FrameFormats.writeJson context f
  | .columnar => ⟨[], some .needsFile⟩

/-- Writes in the format of exactly this name. -/
def writeNamed [FrameFormats] (f : Frame) (context : Context) (name : Bytes) : Written :=
  match Format.ofText? name with
  | some format => f.write context format
  | none => ⟨[], some (.unknownFormat name)⟩

/-- What a file gets, which may be less than the frame when the writing fails. -/
def fileContent [FrameFormats] (f : Frame) (context : Context) (name : Bytes) : Written :=
  if name = Format.columnar.text then FrameFormats.writeColumnar context f else f.writeNamed context name

/-- Saves a frame in a file. The file is replaced before anything is written, so it is there whenever its path can be
followed. -/
def save [FrameFormats] (f : Frame) (context : Context) (folder : Folder) (path name : Bytes) :
    Folder × Option FrameError :=
  let written := f.fileContent context name
  match folder.write path written.text with
  | .error fault => (folder, some (.file path fault))
  | .ok folder => (folder, written.failure)

/-- Reads a file of rows as objects, which may not be empty. -/
def ofJson [FrameFormats] (context : Context) (text : Bytes) : Except FrameError Frame :=
  if text.isEmpty then .error .emptyFile else FrameFormats.readJson context text

/-- A frame that was read, which needs columns. -/
def filled (f : Frame) : Except FrameError Frame := if f.columns.isEmpty then .error .emptyFile else .ok f

/-- Loads a frame in the format that the path tells. -/
def load [FrameFormats] (context : Context) (folder : Folder) (path : Bytes) : Except FrameError Frame := do
  let format ← Format.ofPath path
  let read ← match format with
    | .csv => pure FrameFormats.readCsv
    | .json => pure ofJson
    | .columnar => pure FrameFormats.readColumnar
    | .table => .error (.notLoadable .table)
  match folder.read path with
  | .error fault => .error (.file path fault)
  | .ok text => (← read context text).filled

/-- Rows are only written while the context is live. -/
def whileLive (f : Frame) (context : Context) (written : Written) : Written :=
  match context.reason? 0 with
  | some why => if f.rowCount = 0 then written else ⟨[], some (.interrupted why)⟩
  | none => written

/-- The frame of a text of comma separated values. -/
def ofCsv (text : Bytes) : Except FrameError Frame :=
  match (readCsv text).fields with
  | .error fault => .error (.csv fault)
  | .ok [] => .error .noRows
  | .ok (names :: rows) => .ok (ofRecords .infer names rows)

end Frame

/-- A result that is only come to under a live context. -/
def Context.guarding {α : Type} (context : Context) (result : Except FrameError α) : Except FrameError α :=
  match context.reason? 0 with
  | some why => .error (.interrupted why)
  | none => result

instance plainFormats : FrameFormats where
  table := Frame.table
  writeCsv context f := f.whileLive context ⟨f.csv, none⟩
  writeJson context f := f.whileLive context f.jsonLines
  writeColumnar context f :=
    match context.reason? 0 with
    | some why => ⟨[], some (.interrupted why)⟩
    | none => ⟨f.columnar, none⟩
  readCsv context text := context.guarding (Frame.ofCsv text)
  readJson context text := context.guarding (readJsonFrame text)
  readColumnar context text :=
    context.guarding (match readColumnar? text with
      | some frame => .ok frame
      | none => .error .damaged)

end StackMachine
