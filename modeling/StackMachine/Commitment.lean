import StackMachine.Event

namespace StackMachine

/-- A committed transaction. -/
structure Result where
  op : Opcode
  registers : List (Register × Int64)
  cells : List CellChange
  ip : Int64
  halted : Bool
  detail : Bytes
  deriving DecidableEq

namespace Stack

/-- The stack after a pop, unchanged when there is nothing to pop. -/
def dropTop (s : Stack) : Stack :=
  match s.pop with
  | .ok (_, rest) => rest
  | .error _ => s

/-- The stack after a push, unchanged when it is full. -/
def putTop (s : Stack) (v : Int64) : Stack :=
  match s.push v with
  | .ok pushed => pushed
  | .error _ => s

def dropTops (s : Stack) : Nat → Stack
  | 0 => s
  | n + 1 => dropTops s.dropTop n

end Stack

namespace Transaction

/-- The stack that the transaction leaves. -/
def stackAfter (t : Transaction) (s : Stack) : Stack :=
  match t.push with
  | none => s.dropTops t.pops
  | some (v, _) => (s.dropTops t.pops).putTop v

/-- The label of a cell that the transaction touches, given the stack pointer before it. The pushed value takes the
lowest popped cell. -/
def hintAt (t : Transaction) (sp : Int) (i : Int) : Option Bytes :=
  let popped := if sp - t.pops < i ∧ i ≤ sp then some (utf8 "popped") else none
  match t.push with
  | some (_, hint) => if i = sp - t.pops + 1 then some hint else popped
  | none => popped

/-- The touched cells with their final contents, from the bottom up. -/
def cellsAfter (t : Transaction) (sp : Int) (after : Stack) : List CellChange :=
  (List.range after.capacity).filterMap fun (i : Nat) =>
    (t.hintAt sp i).map fun hint => ⟨i, after.cell i, hint⟩

/-- The registers that the transaction changes: its own writes, then SP when the stack has moved. -/
def registersAfter (t : Transaction) (sp : Int) (after : Stack) : List (Register × Int64) :=
  t.writes ++ if after.sp = sp then [] else [(.sp, Int64.ofInt after.sp)]

end Transaction

def RegisterFile.setAll (file : RegisterFile) (writes : List (Register × Int64)) : RegisterFile :=
  writes.foldl (fun file w => file.set w.1 w.2) file

/-- What observers are told of a committed transaction: its log line, its register changes, its cells from the bottom
up, and the instruction pointer when it has moved. -/
def Result.events (r : Result) (oldIP : Int64) : List Event :=
  [.log r.op.name r.detail] ++ r.registers.map (fun w => .register w.1.name w.2) ++
    r.cells.map (fun c => .stack c.index c.cell c.hint) ++ if r.ip = oldIP then [] else [.ip r.ip]

/-- The machine after a transaction, and the account of it. -/
def Machine.commit (m : Machine) (t : Transaction) : Machine × Result :=
  let stack := t.stackAfter m.stack
  let registers := t.registersAfter m.sp stack
  (⟨(m.registers.setAll registers).set .ip t.nextIP, stack⟩,
    { op := t.op, registers, cells := t.cellsAfter m.sp stack, ip := t.nextIP, halted := t.halted,
      detail := t.detail })

end StackMachine
