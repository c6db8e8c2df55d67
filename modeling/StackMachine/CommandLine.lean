import StackMachine.CommandLine.Flag
import StackMachine.Config
import StackMachine.Repl

namespace StackMachine

/-- What is known about the build of the program. -/
structure BuildInfo where
  version : Bytes := utf8 "dev"
  commit : Bytes := utf8 "none"
  date : Bytes := utf8 "unknown"

inductive CommandError where
  | unknownCommand (name : Bytes)
  /-- Operands are missing; the text shows how to use the command. -/
  | usage (text : String)
  | flag (fault : FlagFault)
  | config (error : ConfigError)
  | logger (message : Bytes)
  /-- A frame or file, with what was being done. -/
  | frame (doing : Bytes) (error : FrameError)
  | script (failure : ScriptFailure)
  | program (failure : Failure)
  | hex (fault : HexFault)
  | unknownOpcode (name : Bytes)
  deriving DecidableEq

def CommandError.message : CommandError → Bytes
  | .unknownCommand name => utf8 "unknown command: " ++ name
  | .usage text => utf8 "usage: " ++ utf8 text
  | .flag fault => fault.message
  | .config error => error.message
  | .logger message => message
  | .frame doing error => doing ++ error.message
  | .script failure => failure.message
  | .program failure => utf8 "exec: " ++ failure.message
  | .hex fault => utf8 "decoding hex: " ++ fault.message
  | .unknownOpcode name => utf8 "unknown opcode: " ++ name

/-- How a command ended. -/
structure Finished where
  out : Bytes := []
  err : Bytes := []
  failure : Option CommandError := none
  folder : Folder

namespace Finished

def failed (folder : Folder) (error : CommandError) : Finished := { folder, failure := some error }

/-- Prints before everything else that is printed. -/
def printing (text : Bytes) (f : Finished) : Finished := { f with out := text ++ f.out }

def ofWritten (folder : Folder) (written : Written) : Finished :=
  { folder, out := written.text, failure := written.failure.map (.frame []) }

/-- Goes on with another part unless this one failed. -/
def andThen (f : Finished) (next : Folder → Finished) : Finished :=
  match f.failure with
  | some _ => f
  | none =>
    let g := next f.folder
    { g with out := f.out ++ g.out, err := f.err ++ g.err }

end Finished

def flagSpec (name : String) (kind : FlagKind) (usage : String) : FlagSpec := ⟨utf8 name, kind, utf8 usage⟩

def capacityFlag : FlagSpec := flagSpec "capacity" .int "stack capacity"

def configFlag : FlagSpec := flagSpec "config" .text "YAML config file"

def latchFlag : FlagSpec := flagSpec "latch" .switch "write arithmetic operands to A, B and C"

def logLevelFlag : FlagSpec := flagSpec "log-level" .text "log level (debug, info, warn, error)"

def quietFlag : FlagSpec := flagSpec "q" .switch "disable logging"

def stateFormatFlag : FlagSpec := flagSpec "format" .text "output format: table, csv, json (default \"table\")"

def outputFlag : FlagSpec := flagSpec "o" .text "output file (default: stdout)"

def replFlags : List FlagSpec := [capacityFlag, configFlag,
  flagSpec "delay" .span "pause between preview and commit in staged mode", latchFlag, logLevelFlag, quietFlag,
  flagSpec "staged" .switch "preview stack operands before each commit"]

def runFlags : List FlagSpec := [capacityFlag, configFlag, stateFormatFlag, latchFlag, logLevelFlag, quietFlag,
  flagSpec "trace" .text "save the event trace to a .csv, .json or .parquet file"]

def execFlags : List FlagSpec := [capacityFlag, configFlag, latchFlag, logLevelFlag,
  flagSpec "max-steps" .int "instruction limit (default from config)", quietFlag,
  flagSpec "timeout" .span "execution timeout (default 5s)"]

def catalogFlags : List FlagSpec := [
  flagSpec "format" .text "output format: table, csv, json, parquet (default \"table\")", outputFlag]

def disasmFlags : List FlagSpec := [outputFlag]

def traceFlags : List FlagSpec := [stateFormatFlag]

/-- The settings of a file with those flags on top that every engine shares. -/
def GivenFlags.layered (given : GivenFlags) (c : Config) : Config :=
  { c with
    capacity := (given.int? "capacity").getD c.capacity
    latch := (given.switch? "latch").getD c.latch
    logLevel := (given.text? "log-level").getD c.logLevel }

/-- The settings an engine is built from: defaults, file and flags, checked as a whole. The log has to exist too. -/
def GivenFlags.settings [ConfigDecoder] [LevelParser] (given : GivenFlags) (folder : Folder) :
    Except CommandError Config :=
  match Config.load folder ((given.text? "config").getD []) with
  | (_, some error) => .error (.config error)
  | (c, none) =>
    let c := given.layered c
    match c.validate [] with
    | some error => .error (.config error)
    | none =>
      match LogLevel.enabledFor c.logLevel ((given.switch? "q").getD false) with
      | .error message => .error (.logger message)
      | .ok _ => .ok c

/-- Ends a command whose flags are wrong. -/
def Finished.misused (command : String) (specs : List FlagSpec) (folder : Folder) (fault : FlagFault) : Finished :=
  { Finished.failed folder (.flag fault) with err := fault.report (utf8 command) specs }

/-- Reads the flags of a command and goes on with them. -/
def withFlags (command : String) (specs : List FlagSpec) (folder : Folder) (arguments : List Bytes)
    (body : GivenFlags → List Bytes → Finished) : Finished :=
  match parseFlags specs arguments with
  | .error fault => .misused command specs folder fault
  | .ok (given, operands) => body given operands

/-- The interactive loop that settings describe. -/
def Repl.ofConfig (c : Config) (folder : Folder) : Repl :=
  { Repl.ofOptions c.options with staged := c.staged, delay := c.commitDelay, folder }

/-- The interactive loop that flags and settings describe. Its own two flags are not checked. -/
def GivenFlags.repl (given : GivenFlags) (c : Config) (folder : Folder) : Repl :=
  .ofConfig { c with
    staged := (given.switch? "staged").getD c.staged
    commitDelay := (given.span? "delay").getD c.commitDelay } folder

/-- The interactive loop of a command line, or how the command ends before it. -/
def openRepl [ConfigDecoder] [LevelParser] (folder : Folder) (arguments : List Bytes) : Except Finished Repl :=
  match parseFlags replFlags arguments with
  | .error fault => .error (.misused "repl" replFlags folder fault)
  | .ok (given, _) =>
    match given.settings folder with
    | .error error => .error (.failed folder error)
    | .ok c => .ok (given.repl c folder)

def replCommand [FrameFormats] [ConfigDecoder] [LevelParser] (folder : Folder) (input : Bytes)
    (arguments : List Bytes) : Finished :=
  match openRepl folder arguments with
  | .error finished => finished
  | .ok r =>
    let (r, text) := r.start input
    { folder := r.folder, out := text }

/-- Registers and stack, after a line with the pointers in a table. -/
def stateText [FrameFormats] (folder : Folder) (s : Snapshot) (format : Format) : Finished :=
  let pointers := if format = .table then
    utf8 "IP=" ++ value s.ip ++ utf8 " SP=" ++ decimal s.sp ++ utf8 "\n" else []
  (Finished.ofWritten folder ((Frame.ofRegisters s).write none format)).andThen (fun folder =>
    .ofWritten folder ((Frame.ofStack s).write none format)) |>.printing pointers

/-- Saves a trace in the format that its path tells. -/
def saveTraceFile [FrameFormats] (folder : Folder) (path : Bytes) (trace : Frame) : Finished :=
  match Format.ofPath path with
  | .error error => .failed folder (.frame [] error)
  | .ok format =>
    match trace.save none folder path format.text with
    | (folder, some error) => .failed folder (.frame (utf8 "writing " ++ path ++ utf8 ": ") error)
    | (folder, none) => { folder, err := utf8 "Trace written to: " ++ path ++ utf8 "\n" }

/-- Only a rejected statement leaves a state to show. -/
def ScriptFailure.leavesState : ScriptFailure → Bool
  | .statement _ _ _ => true
  | _ => false

/-- Shows what a script left behind, saves its trace and ends with its failure. -/
def finishRun [FrameFormats] (folder : Folder) (format : Format) (tracePath : Bytes) (run : ScriptRun) : Finished :=
  match run.failure.filter fun failure => !failure.leavesState with
  | some failure => .failed folder (.script failure)
  | none =>
    let shown := (stateText folder run.snapshot format).andThen fun folder =>
      if tracePath.isEmpty then { folder }
      else saveTraceFile folder tracePath (({ limit := 0 } : Recorder).recordAll run.events).frame
    shown.andThen fun folder => { folder, failure := run.failure.map .script }

/-- Runs the script at a path and prints the state it leaves in a format of the given name. -/
def runWith [FrameFormats] (c : Config) (folder : Folder) (path format tracePath : Bytes) : Finished :=
  match Format.ofName format with
  | .error error => .failed folder (.frame [] error)
  | .ok .columnar => .failed folder (.frame (utf8 "run: ") .needsFile)
  | .ok format =>
    match folder.read path with
    | .error fault => .failed folder (.frame [] (.file path fault))
    | .ok source =>
      finishRun folder format tracePath
        (runScript { capacity := c.capacity.toInt, latch := c.latch, maxStatements := c.maxSteps.toInt } source)

def runCommand [FrameFormats] [ConfigDecoder] [LevelParser] (folder : Folder) (arguments : List Bytes) : Finished :=
  withFlags "run" runFlags folder arguments fun given operands =>
    match operands with
    | [] => .failed folder (.usage "stackvm run [flags] <script>")
    | path :: _ =>
      match given.settings folder with
      | .error error => .failed folder error
      | .ok c => runWith c folder path ((given.text? "format").getD (utf8 "table")) ((given.text? "trace").getD [])

/-- The bytes that arguments spell, joined and with an optional base mark in front. -/
def readHexArguments (arguments : List Bytes) : Except HexFault Bytes :=
  readHex (stripLeading (utf8 "0X") (stripLeading (utf8 "0x") arguments.flatten))

/-- A deadline that has passed before the work begins. -/
def deadline (timeout : Duration) : Context := if timeout.nanoseconds ≤ 0 then some .expired else none

/-- Steps granted to a program without an instruction limit. -/
def execPatience : Nat := 100000000

/-- Runs the instructions that operands spell, and prints where they halt and the state they leave. -/
def execWith [FrameFormats] (c : Config) (folder : Folder) (timeout : Duration) (operands : List Bytes) : Finished :=
  match readHexArguments operands with
  | .error fault => .failed folder (.hex fault)
  | .ok code =>
    let run := (Engine.ofOptions c.options).run execPatience (deadline timeout) code
    match run.reply with
    | .error failure => .failed folder (.program failure)
    | .ok result =>
      (stateText folder run.engine.snapshot .table).printing
        (utf8 "halted at " ++ offsetText result.ip.toInt.toNat ++ utf8 "\n")

/-- The settings with the flag for the instruction limit on top; only a positive one counts. -/
def GivenFlags.limited (given : GivenFlags) (c : Config) : Config :=
  let limit := (given.int? "max-steps").getD 0
  if 0 < limit then { c with maxSteps := limit } else c

def execCommand [FrameFormats] [ConfigDecoder] [LevelParser] (folder : Folder) (arguments : List Bytes) : Finished :=
  withFlags "exec" execFlags folder arguments fun given operands =>
    if operands.isEmpty then .failed folder (.usage "stackvm exec [flags] <hex bytes>")
    else match given.settings folder with
      | .error error => .failed folder error
      | .ok c => execWith (given.limited c) folder ((given.span? "timeout").getD (.ofSeconds 5)) operands

def catalogCommand [FrameFormats] (folder : Folder) (arguments : List Bytes) : Finished :=
  withFlags "catalog" catalogFlags folder arguments fun given operands =>
    match operands with
    | name :: _ =>
      match Opcode.ofName? name with
      | some op => { folder, out := op.definition.summary }
      | none => .failed folder (.unknownOpcode name)
    | [] =>
      match Format.ofName ((given.text? "format").getD (utf8 "table")) with
      | .error error => .failed folder (.frame [] error)
      | .ok format =>
        let path := (given.text? "o").getD []
        if path.isEmpty then .ofWritten folder (Frame.ofCatalog.write none format)
        else match Frame.ofCatalog.save none folder path format.text with
          | (folder, some error) => .failed folder (.frame (utf8 "writing catalog: ") error)
          | (folder, none) => { folder, out := utf8 "Catalog written to: " ++ path ++ utf8 "\n" }

def disasmCommand (folder : Folder) (arguments : List Bytes) : Finished :=
  withFlags "disasm" disasmFlags folder arguments fun given operands =>
    if operands.isEmpty then .failed folder (.usage "stackvm disasm <hex bytes> [-o output.txt]")
    else match readHexArguments operands with
      | .error fault => .failed folder (.hex fault)
      | .ok code =>
        let path := (given.text? "o").getD []
        if path.isEmpty then { folder, out := disassemble code }
        else match folder.write path (disassemble code) with
          | .error fault => .failed folder (.frame (utf8 "writing output: ") (.file path fault))
          | .ok folder => { folder, out := utf8 "Disassembled to: " ++ path ++ utf8 "\n" }

def traceCommand [FrameFormats] (folder : Folder) (arguments : List Bytes) : Finished :=
  withFlags "trace" traceFlags folder arguments fun given operands =>
    match operands with
    | [] => .failed folder (.usage "stackvm trace <file.csv|file.json|file.parquet>")
    | path :: _ =>
      match Format.ofName ((given.text? "format").getD (utf8 "table")) with
      | .error error => .failed folder (.frame [] error)
      | .ok format =>
        match Frame.load none folder path with
        | .error error => .failed folder (.frame (utf8 "loading trace: ") error)
        | .ok frame => .ofWritten folder (frame.write none format)

def versionText (b : BuildInfo) : Bytes :=
  utf8 "stackvm version " ++ b.version ++ utf8 "\n" ++
    (if b.commit = utf8 "none" then [] else utf8 "  commit: " ++ b.commit ++ utf8 "\n") ++
    (if b.date = utf8 "unknown" then [] else utf8 "  built:  " ++ b.date ++ utf8 "\n")

def programHelp : List String := [
  "stackvm - instructional stack machine with 12 registers and 16 opcodes",
  "",
  "Usage:",
  "  stackvm <command> [arguments]",
  "",
  "Commands:",
  "  repl                  Start interactive REPL",
  "  run <script>          Execute a file of statements and print the final state",
  "  exec <hex>            Run encoded instructions until HLT",
  "  catalog [op]          Show the instruction catalog, or one opcode",
  "  disasm <hex>          Disassemble encoded instructions",
  "  trace <file>          Show a trace saved by 'run -trace' or the REPL",
  "  version               Print version information",
  "  help                  Show this help message",
  "",
  "Engine Options (repl, run, exec):",
  "  -config <file>        YAML config file",
  "  -log-level <level>    debug, info, warn or error",
  "  -q                    Disable logging",
  "  -capacity <n>         Stack capacity (default 10)",
  "  -latch                Write arithmetic operands to A, B and C",
  "",
  "REPL Options:",
  "  -staged               Preview stack operands before each commit",
  "  -delay <duration>     Pause between preview and commit",
  "",
  "Run Options:",
  "  -format <fmt>         table, csv or json",
  "  -trace <file>         Save the event trace (.csv, .json, .parquet)",
  "",
  "Exec Options:",
  "  -max-steps <n>        Instruction limit",
  "  -timeout <duration>   Execution timeout (default 5s)",
  "",
  "Catalog Options:",
  "  -format <fmt>         table, csv, json or parquet",
  "  -o <file>             Output file (default: stdout)",
  "",
  "Examples:",
  "  stackvm repl -staged -delay 300ms",
  "  stackvm run examples/countdown.svm -trace trace.csv",
  "  stackvm exec 090003 0D00 0101 06 0E00 02 0C000003 00",
  "  stackvm catalog -format parquet -o catalog.parquet",
  "  stackvm trace trace.csv"]

def programHelpText : Bytes := programHelp.flatMap fun line => outputLine (utf8 line)

/-- Carries out a command line. -/
def runProgram [FrameFormats] [ConfigDecoder] [LevelParser] (build : BuildInfo) (folder : Folder) (input : Bytes) :
    List Bytes → Finished
  | [] => { folder, out := programHelpText }
  | name :: arguments =>
    if name = utf8 "repl" then replCommand folder input arguments
    else if name = utf8 "run" then runCommand folder arguments
    else if name = utf8 "exec" then execCommand folder arguments
    else if name = utf8 "catalog" then catalogCommand folder arguments
    else if name = utf8 "disasm" then disasmCommand folder arguments
    else if name = utf8 "trace" then traceCommand folder arguments
    else if name = utf8 "version" then { folder, out := versionText build }
    else if name = utf8 "help" ∨ name = utf8 "-h" ∨ name = utf8 "--help" then { folder, out := programHelpText }
    else .failed folder (.unknownCommand name)

end StackMachine
