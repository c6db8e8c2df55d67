import StackMachine.Error

namespace StackMachine

/-- A layer of context keeps the message that was made when it was added, which may have any form. -/
inductive Fault where
  | bare (kind : Kind)
  | engine (complaint : Complaint)
  | foreign (text : Bytes)
  | statement (line : Int) (text : Bytes) (inner : Fault)
  | context (message : Bytes) (inner : Fault)
  deriving DecidableEq

namespace Fault

def message : Fault → Bytes
  | .bare kind => kind.text
  | .engine complaint => complaint.message
  | .foreign text => text
  | .statement line text inner => utf8 "line " ++ decimal line ++ utf8 ": " ++ text ++ utf8 ": " ++ inner.message
  | .context message _ => message

/-- The error directly inside an error, if there is one. An engine error holds its bare kind. -/
def unwrap : Fault → Option Fault
  | .bare _ | .foreign _ => none
  | .engine complaint => some (.bare complaint.kind)
  | .statement _ _ inner | .context _ inner => some inner

/-- The kind an error carries, if it comes from the engine. Kind zero stands for none. -/
def kindOf : Fault → Kind
  | .bare kind => kind
  | .engine complaint => complaint.kind
  | .foreign _ => ⟨0⟩
  | .statement _ _ inner => inner.kindOf
  | .context _ inner => inner.kindOf

/-- The error and every error it wraps, outermost first. -/
def layers : Fault → List Fault
  | .bare kind => [.bare kind]
  | .engine complaint => [.engine complaint, .bare complaint.kind]
  | .foreign text => [.foreign text]
  | .statement line text inner => .statement line text inner :: inner.layers
  | .context message inner => .context message inner :: inner.layers

/-- Whether one of the layers is the bare kind. -/
def isKind (fault : Fault) (kind : Kind) : Bool := fault.layers.contains (.bare kind)

/-- Adds the same context a number of times, each time before the message so far. -/
def wrapped (text : Bytes) : Nat → Fault → Fault
  | 0, fault => fault
  | n + 1, fault =>
    let inner := wrapped text n fault
    .context (text ++ utf8 ": " ++ inner.message) inner

end Fault

end StackMachine
