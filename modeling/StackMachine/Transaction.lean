import StackMachine.Arithmetic
import StackMachine.RegisterFile
import StackMachine.Stack

namespace StackMachine

/-- The registers and the stack. -/
structure Machine where
  registers : RegisterFile
  stack : Stack
  deriving DecidableEq

namespace Machine

/-- Every register zero except SP, which is -1, and every cell empty. -/
def baseline (stack : Stack) : Machine := ⟨RegisterFile.zero.set .sp (-1), stack.reset⟩

def ip (m : Machine) : Int64 := m.registers.get .ip

def sp (m : Machine) : Int := m.stack.sp

end Machine

/-- A cell with the label that stands next to it in a picture of the stack. -/
structure CellChange where
  index : Int
  cell : Cell
  hint : Bytes
  deriving DecidableEq

/-- An action whose preconditions hold in a machine, with all its effects worked out. -/
structure Transaction where
  op : Opcode
  pops : Nat := 0
  /-- The value to be pushed after the pops, and its label. -/
  push : Option (Int64 × Bytes) := none
  writes : List (Register × Int64) := []
  nextIP : Int64
  halted : Bool := false
  detail : Bytes
  /-- The cells that the transaction reads, top first, as they are before it. -/
  consumed : List CellChange := []
  deriving DecidableEq

def stackCellText (i : Int) : Bytes := utf8 "stack[" ++ decimal i ++ utf8 "]"

/-- A register that instructions may write. -/
def Register.writable (r : Register) : Except Cause Register :=
  if r.role = .pointer then .error (.engineRegister r) else .ok r

/-- Whether the operation also writes its operands and result to A, B and C when the latch is on. -/
def BinaryOp.isLatched (f : BinaryOp) : Bool := f != .less

/-- Checks the preconditions of an action in the machine and works out its effects. -/
def Machine.plan (latch : Bool) (m : Machine) (action : Action) : Except Cause Transaction := do
  let op := action.opcode
  let next := m.ip + Int64.ofNat op.size
  let sp := m.sp
  match action with
  | .halt => return { op, nextIP := m.ip, halted := true, detail := utf8 "halted" }
  | .nothing => return { op, nextIP := next, detail := utf8 "no operation" }
  | .push v =>
    if m.stack.isFull then throw .stackFull
    return { op, nextIP := next, push := some (v, utf8 "pushed"),
             detail := utf8 "pushed " ++ value v ++ utf8 " -> " ++ stackCellText (sp + 1) }
  | .drop =>
    if sp < 0 then throw .stackEmpty
    let top := m.stack.cell sp
    return { op, nextIP := next, pops := 1, consumed := [⟨sp, top, utf8 "popping"⟩],
             detail := utf8 "popped " ++ value (top.getD 0) ++ utf8 " from " ++ stackCellText sp }
  | .combine f =>
    if sp < 1 then throw .stackShallow
    let a := (m.stack.cell sp).getD 0
    let b := (m.stack.cell (sp - 1)).getD 0
    let c ← f.apply b a
    let sum := value b ++ utf8 " " ++ f.symbol ++ utf8 " " ++ value a
    let done : Transaction := { op, nextIP := next, pops := 2, push := some (c, utf8 "result"), detail := [] }
    if f.isLatched then
      return { done with
        consumed := [⟨sp, some a, utf8 "A (top)"⟩, ⟨sp - 1, some b, utf8 "B"⟩]
        writes := if latch then [(.a, a), (.b, b), (.c, c)] else []
        detail := sum ++ utf8 " = " ++ value c ++ utf8 " -> " ++ stackCellText (sp - 1) }
    else
      return { done with
        consumed := [⟨sp, some a, utf8 "top"⟩, ⟨sp - 1, some b, utf8 "second"⟩]
        detail := sum ++ utf8 " -> " ++ value c }
  | .copy source target =>
    let target ← target.writable
    let v := m.registers.get source
    return { op, nextIP := next, writes := [(target, v)],
             detail := target.name ++ utf8 " = " ++ source.name ++ utf8 " (" ++ value v ++ utf8 ")" }
  | .assign target v =>
    let target ← target.writable
    return { op, nextIP := next, writes := [(target, v)], detail := target.name ++ utf8 " = " ++ value v }
  | .report source =>
    let v := m.registers.get source
    return { op, nextIP := next,
             detail := source.name ++ utf8 " = " ++ value v ++ utf8 " (" ++ hexValue v ++ utf8 ")" }
  | .branch c source wanted target =>
    if target < 0 then throw (.negativeTarget target)
    let test := source.name ++ utf8 " " ++ c.symbol ++ utf8 " " ++ value wanted
    if c.holds (m.registers.get source) wanted then
      return { op, nextIP := target, detail := test ++ utf8 ": jump to " ++ value target }
    else
      return { op, nextIP := next, detail := test ++ utf8 " is false: skip to " ++ value next }
  | .load source =>
    if m.stack.isFull then throw .stackFull
    let v := m.registers.get source
    return { op, nextIP := next, push := some (v, utf8 "pushed"),
             detail := utf8 "pushed " ++ source.name ++ utf8 " (" ++ value v ++ utf8 ") -> " ++
               stackCellText (sp + 1) }
  | .store target =>
    if sp < 0 then throw .stackEmpty
    let target ← target.writable
    let top := m.stack.cell sp
    return { op, nextIP := next, consumed := [⟨sp, top, utf8 "top"⟩], writes := [(target, top.getD 0)],
             detail := target.name ++ utf8 " = " ++ stackCellText sp ++ utf8 " (" ++ value (top.getD 0) ++
               utf8 ")" }

end StackMachine
