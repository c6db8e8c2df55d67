import Mathlib.Data.List.Basic
import StackMachine.Config

namespace StackMachine

namespace Config

namespace Setting

/-- The values of a setting. -/
def Value : Setting → Type
  | .capacity => Int64
  | .logLevel => Bytes
  | .maxSteps => Int64
  | .latch => Bool
  | .staged => Bool
  | .commitDelay => Duration

def get (c : Config) : (s : Setting) → s.Value
  | .capacity => c.capacity
  | .logLevel => c.logLevel
  | .maxSteps => c.maxSteps
  | .latch => c.latch
  | .staged => c.staged
  | .commitDelay => c.commitDelay

def put (c : Config) : (s : Setting) → s.Value → Config
  | .capacity, n => { c with capacity := n }
  | .logLevel, name => { c with logLevel := name }
  | .maxSteps, n => { c with maxSteps := n }
  | .latch, on => { c with latch := on }
  | .staged, on => { c with staged := on }
  | .commitDelay, d => { c with commitDelay := d }

variable {c c' : Config} {s t : Setting}

theorem ofName?_name (s : Setting) : ofName? s.name = some s := by cases s <;> rfl

end Setting

section File

variable {c : Config}

end File

end Config

/-- The names that are read as levels are those that are read as levels of a log, and that in the defaults is one. -/
structure LevelParser.Standard [LevelParser] : Prop where
  atomic : ∀ name, (∃ level, atomicLevel name = .ok level) ↔ (level? name).isSome
  default : (level? ({} : Config).logLevel).isSome

end StackMachine
