import StackMachine.Frame.Format
import StackMachine.Text.Split

namespace StackMachine

structure Folder where
  files : List (Bytes × Bytes) := []
  /-- Folders that exist whether or not there are files in them, by the parts of their path. -/
  folders : List (List Bytes) := []

namespace Folder

/-- Follows one part of a path. A step up takes back the last part, if it can. -/
def follow (seen : List Bytes) (part : Bytes) : List Bytes :=
  if part.isEmpty ∨ part = utf8 "." then seen
  else if part = utf8 ".." ∧ seen.getLast?.any fun last => last ≠ [] ∧ last ≠ utf8 ".." then seen.dropLast
  else seen ++ [part]

/-- The parts of a path, without those that lead nowhere; that of the root is empty. -/
def parts (path : Bytes) : List Bytes :=
  (splitOn (byte '/') path).foldl follow (if path.head? = some (byte '/') then [[]] else [])

/-- The one spelling under which a path is kept. -/
def key (path : Bytes) : Bytes := joined (utf8 "/") (parts path)

def find? (f : Folder) (key : Bytes) : Option Bytes := (f.files.find? fun file => file.1 == key).map Prod.snd

/-- Whether the parts name a folder. -/
def hasFolder (f : Folder) (dir : List Bytes) : Bool :=
  dir.isEmpty || f.folders.contains dir || f.files.any fun file => dir.isPrefixOf (splitOn (byte '/') file.1).dropLast

/-- Whether a path asks for a folder by its spelling. -/
def asksFolder (path : Bytes) : Bool := path.getLast? == some (byte '/')

/-- Why the folder of a path cannot be reached: it is missing, or a part of it is a file. -/
def blocked? (f : Folder) (path : Bytes) : Option FileFault :=
  let dir := (parts path).dropLast
  if path.isEmpty then some .missing
  else if f.hasFolder dir then none
  else if (List.range dir.length).any fun n => (f.find? (joined (utf8 "/") (dir.take (n + 1)))).isSome then
    some .notDirectory
  else some .missing

def read (f : Folder) (path : Bytes) : Except FileFault Bytes :=
  match f.blocked? path with
  | some fault => .error fault
  | none =>
    if f.hasFolder (parts path) then .error .noContent
    else match f.find? (key path) with
      | some content => if asksFolder path then .error .notDirectory else .ok content
      | none => .error .missing

/-- Replaces the file or adds it. -/
def put (f : Folder) (key content : Bytes) : Folder :=
  if (f.find? key).isSome then
    { f with files := f.files.map fun file => if file.1 = key then (key, content) else file }
  else { f with files := f.files ++ [(key, content)] }

def write (f : Folder) (path content : Bytes) : Except FileFault Folder :=
  match f.blocked? path with
  | some fault => .error fault
  | none => if f.hasFolder (parts path) || asksFolder path then .error .directory else .ok (f.put (key path) content)

/-- The files that are new or differ from those of an earlier state. -/
def changedSince (f before : Folder) : List (Bytes × Bytes) :=
  f.files.filter fun file => before.find? file.1 != some file.2

end Folder

end StackMachine
