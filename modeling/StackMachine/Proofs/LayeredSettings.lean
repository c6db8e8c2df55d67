import StackMachine.CommandLine
import StackMachine.Proofs.SettingsFile

namespace StackMachine

section Flags

variable {specs : List FlagSpec} {given : GivenFlags} {arguments operands : List Bytes}

def FlagValue.kind : FlagValue → FlagKind
  | .text _ => .text
  | .int _ => .int
  | .switch _ => .switch
  | .span _ => .span

end Flags

/-- The commands that build an engine. -/
inductive EngineCommand where
  | repl
  | run
  | exec
  deriving DecidableEq

namespace EngineCommand

def name : EngineCommand → Bytes
  | .repl => utf8 "repl"
  | .run => utf8 "run"
  | .exec => utf8 "exec"

def all : List EngineCommand := [.repl, .run, .exec]

/-- What a command does with settings in force. -/
def carryOut [FrameFormats] (command : EngineCommand) (c : Config) (given : GivenFlags) (folder : Folder)
    (input : Bytes) (operands : List Bytes) : Finished :=
  match command with
  | .repl =>
    let (r, text) := (Repl.ofConfig c folder).start input
    { folder := r.folder, out := text }
  | .run =>
    runWith c folder (operands.headD []) ((given.text? "format").getD (utf8 "table")) ((given.text? "trace").getD [])
  | .exec => execWith c folder ((given.span? "timeout").getD (.ofSeconds 5)) operands

end EngineCommand

namespace Config.Setting

end Config.Setting

namespace GivenFlags

open Config

variable {given : GivenFlags} {file : (s : Setting) → Option s.Value} {command : EngineCommand}

end GivenFlags

section Checks

open Config

theorem Config.issues_eq_nil_iff [LevelParser] (c : Config) :
    c.issues = [] ↔ ¬ c.capacity < 1 ∧ LevelParser.level? c.logLevel ≠ none ∧ ¬ c.maxSteps < 0 ∧
      ¬ c.commitDelay.nanoseconds < 0 := by
  simp [Config.issues]

end Checks

section Commands

variable {given : GivenFlags} {command : EngineCommand} {arguments operands : List Bytes}

end Commands

section Loading

open Config

variable [LevelParser] {given : GivenFlags} {folder : Folder} {file : Config}

theorem LevelParser.Standard.enabledFor {c : Config} (h : LevelParser.Standard) (quiet : Bool) (hvalid : c.issues = []) :
    ∃ levels, LogLevel.enabledFor c.logLevel quiet = .ok levels := by
  obtain ⟨-, hlevel, -⟩ := (issues_eq_nil_iff c).mp hvalid
  obtain ⟨level, hatomic⟩ := (h.atomic c.logLevel).mpr (Option.isSome_iff_ne_none.mpr hlevel)
  unfold LogLevel.enabledFor
  cases quiet with
  | true => exact ⟨[], rfl⟩
  | false =>
    rw [hatomic]
    exact ⟨level.enabled, rfl⟩

variable [ConfigDecoder]

/-- The settings that a text gives to the defaults; without one they stay. -/
def Config.ofText? : Option Bytes → Config
  | none => {}
  | some text => (ConfigDecoder.decode {} text).1

end Loading

end StackMachine
