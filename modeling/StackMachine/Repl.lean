import StackMachine.Disassembly
import StackMachine.Duration
import StackMachine.Frame.Saved
import StackMachine.Frame.View
import StackMachine.Script
import StackMachine.Text.HexBytes
import StackMachine.Text.Split

namespace StackMachine

structure Repl where
  engine : Engine
  trace : Recorder := { limit := 0 }
  /-- Statements in their canonical form, in order. -/
  history : Array Bytes := #[]
  staged : Bool := false
  /-- The pause between announcing and committing. -/
  delay : Duration := .zero
  /-- The catalog entry shown last by `next`. -/
  cursor : Opcode := .hlt
  done : Bool := false
  /-- The files that traces are saved to. -/
  folder : Folder := {}

/-- A fresh loop; it always counts. -/
def Repl.ofOptions (o : Options) : Repl := { engine := .ofOptions { o with stats := true } }

/-- What a user can ask of the loop itself. -/
inductive ReplCommand where
  | quit
  | help
  | registers
  | stack
  | catalog
  | describe (mnemonic : Bytes)
  | next
  | reset
  | history
  | trace
  | clearTrace
  | saveTrace (path : Bytes)
  | showStaged
  | setStaged (on : Bool)
  | stats
  | disassemble (hex : Bytes)
  /-- A command used wrongly, with the text that says so. -/
  | misuse (text : String)
  deriving DecidableEq

namespace ReplCommand

def ofTraceWords : List Bytes → ReplCommand
  | [] => .trace
  | word :: rest =>
    if word = utf8 "clear" then .clearTrace
    else if word = utf8 "save" then
      match rest with
      | [] => .misuse "Usage: trace save <file.csv|file.json|file.parquet>"
      | path :: _ => .saveTrace path
    else .misuse "Usage: trace [save <file>|clear]"

def ofStagedWords : List Bytes → ReplCommand
  | [] => .showStaged
  | word :: _ =>
    if lower word = utf8 "on" then .setStaged true
    else if lower word = utf8 "off" then .setStaged false
    else .misuse "Unknown setting. Use 'on' or 'off'"

/-- The command that the first word of a line names, in any case. -/
def ofWords? : List Bytes → Option ReplCommand
  | [] => none
  | word :: rest =>
    let name := lower word
    if name = utf8 "quit" ∨ name = utf8 "exit" ∨ name = utf8 "q" then some .quit
    else if name = utf8 "help" ∨ name = utf8 "h" ∨ name = utf8 "?" then some .help
    else if name = utf8 "regs" then some .registers
    else if name = utf8 "stack" then some .stack
    else if name = utf8 "catalog" then
      match rest with
      | [] => some .catalog
      | mnemonic :: _ => some (.describe mnemonic)
    else if name = utf8 "next" then some .next
    else if name = utf8 "reset" then some .reset
    else if name = utf8 "history" then some .history
    else if name = utf8 "trace" then some (ofTraceWords rest)
    else if name = utf8 "staged" then some (ofStagedWords rest)
    else if name = utf8 "stats" then some .stats
    else if name = utf8 "disasm" then
      match rest with
      | [] => some (.misuse "Usage: disasm <hex bytes>")
      | _ => some (.disassemble rest.flatten)
    else none

end ReplCommand

/-- What a line asks for. -/
inductive ReplInput where
  | blank
  | command (c : ReplCommand)
  | faulty (error : SourceError)
  | statement (s : Statement)
  deriving DecidableEq

def ReplInput.ofLine (line : Bytes) : ReplInput :=
  if (words line).isEmpty then .blank
  else match ReplCommand.ofWords? (words line) with
    | some c => .command c
    | none =>
      match parseLine line with
      | .error error => .faulty error
      | .ok none => .blank
      | .ok (some s) => .statement s

/-- What the loop answers to a line. A statement may have been shown before it was committed. -/
inductive ReplResponse where
  | quiet
  | shown (text : Bytes)
  | faulty (error : SourceError)
  | executed (preview : Option Preview) (reply : Except Error Result)

/-- Text as a line of its own. -/
def outputLine (text : Bytes) : Bytes := text ++ [newline]

def errorLine (message : Bytes) : Bytes := outputLine (utf8 "Error: " ++ message)

/-- The cells that an announced statement reads. -/
def Preview.text (p : Preview) : Bytes :=
  outputLine (utf8 "   " ++ p.op.name ++ utf8 " reads " ++ joined (utf8 ", ") (p.consumed.map fun c =>
    stackCellText c.index ++ utf8 "=" ++ c.cell.text ++ utf8 " (" ++ c.hint ++ utf8 ")"))

def Result.text (r : Result) : Bytes :=
  outputLine (utf8 "=> " ++ r.op.name ++ utf8 ": " ++ r.detail) ++
    if r.halted then utf8 "(halted)\n" else []

namespace ReplResponse

/-- What is shown before the pause of staged mode. -/
def announced : ReplResponse → Bytes
  | .executed (some preview) _ => preview.text
  | _ => []

def answered : ReplResponse → Bytes
  | .quiet => []
  | .shown text => text
  | .faulty error => errorLine error.message
  | .executed _ (.error error) => errorLine error.message
  | .executed _ (.ok result) => result.text

def text (r : ReplResponse) : Bytes := r.announced ++ r.answered

end ReplResponse

def replHelp : List String := [
  "",
  "stackvm REPL Commands:",
  "  help, h, ?           Show this help message",
  "  quit, exit, q        Exit the REPL",
  "  regs                 Show the register file",
  "  stack                Show the stack, top first",
  "  catalog [op]         Show every opcode, or one in detail",
  "  next                 Show the next catalog entry",
  "  reset                Reset registers and stack",
  "  history              Show executed statements",
  "  trace                Show recorded engine events",
  "  trace save <file>    Save the trace as .csv, .json or .parquet",
  "  trace clear          Drop recorded events",
  "  staged [on|off]      Show or set staged mode",
  "  stats                Show execution counters",
  "  disasm <hex>         Disassemble encoded instructions",
  "",
  "Statements:",
  "  PSH 5                push a value",
  "  SET A 0x10           write a register",
  "  ADD                  pop two, push the sum",
  "  IF A 16 0            jump to 0 when A == 16",
  "",
  "Tips:",
  "  - Operands may be separated by spaces or commas",
  "  - ';' and '#' start a comment"]

def describeText (mnemonic : Bytes) : Bytes :=
  match Opcode.ofName? mnemonic with
  | some op => op.definition.summary
  | none => outputLine (utf8 "Unknown opcode: " ++ mnemonic)

/-- Pads on the right up to a width counted in bytes. -/
def paddedRight (width : Nat) (text : Bytes) : Bytes := text ++ List.replicate (width - text.length) (byte ' ')

def Stats.text (s : Stats) : Bytes :=
  outputLine (utf8 "Steps: " ++ decimalNat s.steps ++ utf8 ", errors: " ++ decimalNat s.errors) ++
    Opcode.all.flatMap fun op =>
      if s.count op = 0 then []
      else outputLine (utf8 "  " ++ paddedRight 4 op.name ++ utf8 " " ++ decimalNat (s.count op))

namespace Repl

def stagedText (r : Repl) : Bytes :=
  if r.staged then outputLine (utf8 "Staged mode: on (delay " ++ r.delay.text ++ utf8 ")")
  else utf8 "Staged mode: off\n"

def historyText (r : Repl) : Bytes :=
  r.history.toList.zipIdx.flatMap fun (text, i) =>
    outputLine (paddedLeft (byte ' ') 3 (decimalNat (i + 1)) ++ utf8 ": " ++ text)

/-- Saves the trace in the format that the path tells. -/
def saveTrace [FrameFormats] (r : Repl) (path : Bytes) : Repl × Bytes :=
  match Format.ofPath path with
  | .error error => (r, errorLine error.message)
  | .ok format =>
    match r.trace.frame.save none r.folder path format.text with
    | (folder, some error) =>
      ({ r with folder }, outputLine (utf8 "Error saving " ++ path ++ utf8 ": " ++ error.message))
    | (folder, none) =>
      ({ r with folder },
        outputLine (utf8 "Saved " ++ decimalNat r.trace.rows.size ++ utf8 " trace rows to " ++ path))

/-- Carries out a command of the loop. -/
def command [FrameFormats] (r : Repl) : ReplCommand → Repl × Bytes
  | .quit => ({ r with done := true }, utf8 "Goodbye!\n")
  | .help => (r, replHelp.flatMap fun line => outputLine (utf8 line))
  | .registers => (r, FrameFormats.table (.ofRegisters r.engine.snapshot))
  | .stack => (r, FrameFormats.table (.ofStack r.engine.snapshot))
  | .catalog => (r, FrameFormats.table .ofCatalog)
  | .describe mnemonic => (r, describeText mnemonic)
  | .next =>
    let cursor := Opcode.after r.cursor.code
    ({ r with cursor }, describeText cursor.name)
  | .reset => ({ r with engine := r.engine.reset.settled.engine }, utf8 "Machine reset\n")
  | .history => (r, r.historyText)
  | .trace => (r, if r.trace.rows.isEmpty then utf8 "Trace is empty\n" else FrameFormats.table r.trace.frame)
  | .clearTrace => ({ r with trace := r.trace.clear }, utf8 "Trace cleared\n")
  | .saveTrace path => r.saveTrace path
  | .showStaged => (r, r.stagedText)
  | .setStaged on =>
    let r := { r with staged := on }
    (r, r.stagedText)
  | .stats => (r, (r.engine.stats.getD .zero).text)
  | .disassemble hex =>
    match readHex hex with
    | .ok code => (r, disassemble code)
    | .error fault => (r, errorLine fault.message)
  | .misuse text => (r, outputLine (utf8 text))

/-- Takes over the engine after a call and records what observers were told. -/
def after {α : Type} (r : Repl) (o : Outcome α) : Repl :=
  { r with engine := o.engine, trace := r.trace.recordAll o.events.toArray }

/-- Whether a statement is announced before it is committed. -/
def announces (r : Repl) (s : Statement) : Bool := r.staged && (Opcode.ofName? s.word).any Opcode.isStaged

def execute (r : Repl) (s : Statement) : Repl × ReplResponse :=
  if r.announces s then
    let o := (r.engine.announce s.word s.operands).settled
    match o.reply with
    | .error error => (r.after o, .executed none (.error error))
    | .ok preview =>
      let c := o.engine.commit.settled
      ((r.after o).after c, .executed (some preview) c.reply)
  else
    let o := (r.engine.execute s.word s.operands).settled
    (r.after o, .executed none o.reply)

/-- Handles one line. -/
def eval [FrameFormats] (r : Repl) (line : Bytes) : Repl × ReplResponse :=
  match ReplInput.ofLine line with
  | .blank => (r, .quiet)
  | .command c =>
    let (r, text) := r.command c
    (r, .shown text)
  | .faulty error => (r, .faulty error)
  | .statement s => { r with history := r.history.push s.text }.execute s

def prompt (r : Repl) : Bytes := utf8 (if r.staged then "svm*> " else "svm> ")

def greeting : Bytes :=
  utf8 "stackvm REPL - 12 registers, 16 opcodes, one stack\n" ++
    utf8 "Type 'help' for available commands, 'quit' to exit\n\n"

/-- A line of this many bytes does not fit and ends the input. -/
def lineLimit : Nat := 65536

/-- A line without the carriage return at its end. -/
def dropReturn (line : Bytes) : Bytes :=
  if line.getLast? = some (byte '\r') then line.dropLast else line

/-- Prompts, reads and answers until a line quits the loop or the input ends. -/
def converse [FrameFormats] (r : Repl) : List Bytes → Repl × Bytes
  | [] => (r, if r.done then [] else r.prompt)
  | line :: rest =>
    if r.done then (r, [])
    else if lineLimit ≤ line.length then (r, r.prompt)
    else
      let (next, response) := r.eval (dropReturn line)
      let (last, text) := next.converse rest
      (last, r.prompt ++ response.text ++ text)

/-- The lines of an input; a last line needs no line feed, but an empty one is none. -/
def inputLines (input : Bytes) : List Bytes :=
  let parts := splitOn newline input
  if parts.getLast? = some [] then parts.dropLast else parts

def start [FrameFormats] (r : Repl) (input : Bytes) : Repl × Bytes :=
  let (r, text) := r.converse (inputLines input)
  (r, greeting ++ text)

end Repl

end StackMachine
