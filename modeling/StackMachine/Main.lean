import StackMachine.CommandLine

namespace StackMachine.Program

def toArray (bytes : Bytes) : ByteArray := ⟨bytes.toArray⟩

def ofArray (bytes : ByteArray) : Bytes := bytes.data.toList

def pathText (path : Bytes) : String := (String.fromUTF8? (toArray path)).getD ""

def exists? (path : String) : IO Bool := do
  try
    discard <| IO.FS.realPath path
    return true
  catch _ => return false

/-- Adds what there is at a path, and its folder, to the files that are seen. -/
def look (folder : Folder) (path : Bytes) : IO Folder := do
  let up := (Folder.parts path).dropLast
  let above := joined (utf8 "/") up ++ if up = [[]] then utf8 "/" else []
  let known ← if up.isEmpty then pure true else exists? (pathText above)
  let folder := if known then { folder with folders := up :: folder.folders } else folder
  try
    let content ← IO.FS.readBinFile (pathText path)
    return folder.put (Folder.key path) (ofArray content)
  catch _ => return folder

/-- The texts that may be paths among arguments. -/
def candidates (arguments : List Bytes) : List Bytes :=
  arguments ++ arguments.filterMap fun a => (splitValue a).value

/-- Stores the files that differ from those seen before. -/
def store (before after : Folder) : IO Unit :=
  (after.changedSince before).forM fun (path, content) => IO.FS.writeBinFile (pathText path) (toArray content)

def print (stream : IO.FS.Stream) (text : Bytes) : IO Unit := do
  stream.write (toArray text)
  stream.flush

/-- Reads up to a line feed or the end; `seen` is what was read ahead. Nothing is left when both are empty. -/
partial def readLine (input : IO.FS.Stream) (seen : ByteArray) : IO (Option Bytes × ByteArray) := do
  match seen.data.findIdx? (· == newline) with
  | some i => return (some (ofArray (seen.extract 0 i)), seen.extract (i + 1) seen.size)
  | none =>
    let more ← input.read 4096
    if more.isEmpty then
      return (if seen.isEmpty then none else some (ofArray seen), .empty)
    readLine input (seen ++ more)

/-- Waits between announcing and committing. -/
def pause (r : Repl) (response : ReplResponse) : IO Unit :=
  if response.announced.isEmpty ∨ r.delay.nanoseconds ≤ 0 then return
  else IO.sleep (r.delay.nanoseconds.toInt.toNat / 1000000).toUInt32

partial def interact (input output : IO.FS.Stream) (r : Repl) (seen : ByteArray) : IO Unit := do
  if r.done then return
  print output r.prompt
  let (line, seen) ← readLine input seen
  match line with
  | none => return
  | some line =>
    if Repl.lineLimit ≤ line.length then return
    let folder ← (words line).foldlM look r.folder
    let (next, response) := { r with folder }.eval (Repl.dropReturn line)
    print output response.announced
    pause r response
    print output response.answered
    store folder next.folder
    interact input output next seen

/-- Prints the end of a command and gives the exit code. -/
def finish (before : Folder) (f : Finished) : IO UInt32 := do
  print (← IO.getStdout) f.out
  store before f.folder
  print (← IO.getStderr) f.err
  match f.failure with
  | none => return 0
  | some error =>
    print (← IO.getStderr) (utf8 "error: " ++ error.message ++ utf8 "\n")
    return 1

def run (arguments : List Bytes) : IO UInt32 := do
  let folder ← (candidates arguments).foldlM look {}
  match arguments with
  | [] => finish folder (runProgram {} folder [] [])
  | name :: rest =>
    if name = utf8 "repl" then
      match openRepl folder rest with
      | .error finished => finish folder finished
      | .ok r =>
        let output ← IO.getStdout
        print output Repl.greeting
        interact (← IO.getStdin) output r .empty
        return 0
    else finish folder (runProgram {} folder [] arguments)

end StackMachine.Program

def main (arguments : List String) : IO UInt32 :=
  StackMachine.Program.run (arguments.map StackMachine.utf8)
