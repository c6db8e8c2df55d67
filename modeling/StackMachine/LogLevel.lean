import StackMachine.Text.Case
import StackMachine.Text.Quoted

namespace StackMachine

inductive LogLevel where
  | debug
  | info
  | warn
  | error
  | dpanic
  | panic
  | fatal
  deriving DecidableEq

namespace LogLevel

def all : List LogLevel := [.debug, .info, .warn, .error, .dpanic, .panic, .fatal]

def text : LogLevel → Bytes
  | .debug => utf8 "debug"
  | .info => utf8 "info"
  | .warn => utf8 "warn"
  | .error => utf8 "error"
  | .dpanic => utf8 "dpanic"
  | .panic => utf8 "panic"
  | .fatal => utf8 "fatal"

/-- The levels that are logged: the given one and those more severe. -/
def enabled (level : LogLevel) : List LogLevel := all.dropWhile (· != level)

/-- The level of a name in any case; no name stands for `info`. -/
def ofName? (name : Bytes) : Option LogLevel :=
  if name.isEmpty then some .info else all.find? fun level => level.text == lower name

end LogLevel

/-- How a library reads the name of a level: as a level, and as the level of a log, which comes with a message when
there is none. -/
class LevelParser where
  level? : Bytes → Option LogLevel
  atomicLevel : Bytes → Except Bytes LogLevel

instance plainLevels : LevelParser where
  level? := LogLevel.ofName?
  atomicLevel name :=
    match LogLevel.ofName? name with
    | some level => .ok level
    | none => .error (utf8 "unrecognized level: " ++ quoted name)

/-- The levels that a log of this level and setting shows; the message when there is no such level. -/
def LogLevel.enabledFor [LevelParser] (name : Bytes) (quiet : Bool) : Except Bytes (List LogLevel) :=
  if quiet then .ok []
  else match LevelParser.atomicLevel name with
    | .ok level => .ok level.enabled
    | .error message => .error (utf8 "config: log level: " ++ message)

end StackMachine
