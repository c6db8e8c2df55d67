import StackMachine.Frame.Format

namespace StackMachine

/-- The value of a member; infinities cannot be written. -/
def Entry.json : Entry → Except FrameError Bytes
  | .missing => .ok (utf8 "null")
  | .int v => .ok (value v)
  | .text t => .ok (jsonText t)
  | .float (.infinite negative) => .error (.unsupportedNumber (.infinite negative))
  | .float v => .ok (v.text .object)

def jsonMember (name : Bytes) (e : Entry) : Except FrameError Bytes :=
  match e.json with
  | .ok text => .ok (jsonText name ++ utf8 ":" ++ text)
  | .error error => .error error

/-- The object of a row given by its names and entries. -/
def jsonRow (members : List (Bytes × Entry)) : Except FrameError Bytes :=
  match members.mapM fun m => jsonMember m.1 m.2 with
  | .ok texts => .ok (utf8 "\x7b" ++ joined (utf8 ",") texts ++ utf8 "\x7d\n")
  | .error error => .error error

/-- Text that was written, and the failure that ended the writing if one did. -/
structure Written where
  text : Bytes
  failure : Option FrameError
  deriving DecidableEq

/-- Writes rows up to the first that fails. -/
def jsonRows : List (List (Bytes × Entry)) → Written
  | [] => ⟨[], none⟩
  | row :: rest =>
    match jsonRow row with
    | .error error => ⟨[], some error⟩
    | .ok text =>
      let later := jsonRows rest
      ⟨text ++ later.text, later.failure⟩

/-- The frame with its columns in the order of their names. -/
def Frame.sorted (f : Frame) : Frame := ⟨f.columns.mergeSort fun a b => a.name ≤ b.name⟩

def Frame.jsonLines (f : Frame) : Written :=
  let sorted := f.sorted
  jsonRows (sorted.rows.map fun row => sorted.names.zip row)

end StackMachine
