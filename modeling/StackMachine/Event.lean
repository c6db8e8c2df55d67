import StackMachine.Transaction

namespace StackMachine

inductive Event where
  | log (op detail : Bytes)
  | error (op detail : Bytes)
  | register (name : Bytes) (v : Int64)
  | stack (index : Int) (cell : Cell) (hint : Bytes)
  | ip (v : Int64)
  deriving DecidableEq

/-- An entry of the engine's debug log. -/
inductive LogEntry where
  | dispatch (op : Opcode) (ip : Int64) (sp : Int)
  | rejected (op : Option Bytes) (error : Error)
  | announce (op : Opcode) (consumed : Nat)
  | reset (discardedPending : Bool)
  deriving DecidableEq

namespace LogEntry

def message : LogEntry → Bytes
  | .dispatch .. => utf8 "dispatch"
  | .rejected .. => utf8 "rejected"
  | .announce .. => utf8 "announce"
  | .reset _ => utf8 "reset"

/-- The fields of an entry by name. -/
def fields : LogEntry → List (Bytes × Bytes)
  | .dispatch op ip sp => [(utf8 "op", op.name), (utf8 "ip", value ip), (utf8 "sp", decimal sp)]
  | .rejected op error =>
    (op.map fun name => (utf8 "op", name)).toList ++ [(utf8 "error", error.message)]
  | .announce op consumed => [(utf8 "op", op.name), (utf8 "consumed", decimalNat consumed)]
  | .reset discarded => [(utf8 "discarded_pending", utf8 (if discarded then "true" else "false"))]

/-- The name of the logger that writes every entry. -/
def logger : Bytes := utf8 "vm"

/-- The level of every entry. -/
def level : Bytes := utf8 "debug"

end LogEntry

end StackMachine
