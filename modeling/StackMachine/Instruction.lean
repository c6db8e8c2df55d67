import StackMachine.Error
import StackMachine.Operand

namespace StackMachine

structure Instruction where
  op : Opcode
  operands : List Operand
  deriving DecidableEq

def Instruction.text (i : Instruction) : Bytes := lineText i.op.name i.operands

/-- The operations on the two topmost values of the stack. -/
inductive BinaryOp where
  | add | mul | div | sub | less
  deriving DecidableEq

namespace BinaryOp

def opcode : BinaryOp → Opcode
  | .add => .add
  | .mul => .mul
  | .div => .div
  | .sub => .sub
  | .less => .slt

def symbol : BinaryOp → Bytes
  | .add => utf8 "+"
  | .mul => utf8 "*"
  | .div => utf8 "/"
  | .sub => utf8 "-"
  | .less => utf8 "<"

end BinaryOp

/-- The outcome a branch waits for. -/
inductive Condition where
  | equal
  | different
  deriving DecidableEq

namespace Condition

def symbol : Condition → Bytes
  | .equal => utf8 "=="
  | .different => utf8 "!="

def holds (c : Condition) (v wanted : Int64) : Bool :=
  match c with
  | .equal => v == wanted
  | .different => v != wanted

def opcode : Condition → Opcode
  | .equal => .ifEq
  | .different => .ifNe

end Condition

/-- What an instruction does, with its registers resolved. -/
inductive Action where
  | halt
  | nothing
  | push (v : Int64)
  | drop
  | combine (f : BinaryOp)
  | copy (source target : Register)
  | assign (target : Register) (v : Int64)
  | report (source : Register)
  | branch (c : Condition) (source : Register) (wanted target : Int64)
  | load (source : Register)
  | store (target : Register)
  deriving DecidableEq

def Action.opcode : Action → Opcode
  | .halt => .hlt
  | .nothing => .nop
  | .push _ => .psh
  | .drop => .pop
  | .combine f => f.opcode
  | .copy .. => .mov
  | .assign .. => .set
  | .report _ => .log
  | .branch c .. => c.opcode
  | .load _ => .gld
  | .store _ => .gpt

/-- The operand at a position, counted from one, as a register. -/
def Operand.register (o : Operand) (position : Nat) : Except Cause Register :=
  match o with
  | .imm v => .error (.notRegister position v)
  | .reg name =>
    match Register.ofName? name with
    | some r => .ok r
    | none => .error (.unknownRegister name)

/-- The operand at a position, counted from one, as an integer. -/
def Operand.integer (o : Operand) (position : Nat) (wanted : OperandKind) : Except Cause Int64 :=
  match o with
  | .imm v => .ok v
  | .reg name => .error (.notInteger position wanted name)

/-- Checks the operands of an opcode: their number first, then their kinds from left to right. -/
def Action.ofOperands (op : Opcode) (operands : List Operand) : Except Cause Action :=
  match op, operands with
  | .hlt, [] => return .halt
  | .nop, [] => return .nothing
  | .psh, [v] => return .push (← v.integer 1 .integer)
  | .pop, [] => return .drop
  | .add, [] => return .combine .add
  | .mul, [] => return .combine .mul
  | .div, [] => return .combine .div
  | .sub, [] => return .combine .sub
  | .slt, [] => return .combine .less
  | .mov, [source, target] => return .copy (← source.register 1) (← target.register 2)
  | .set, [target, v] => return .assign (← target.register 1) (← v.integer 2 .integer)
  | .log, [source] => return .report (← source.register 1)
  | .ifEq, [source, wanted, target] =>
    return .branch .equal (← source.register 1) (← wanted.integer 2 .integer) (← target.integer 3 .target)
  | .ifNe, [source, wanted, target] =>
    return .branch .different (← source.register 1) (← wanted.integer 2 .integer) (← target.integer 3 .target)
  | .gld, [source] => return .load (← source.register 1)
  | .gpt, [target] => return .store (← target.register 1)
  | op, operands =>
    throw (.operandCount op.definition.signature op.definition.operands.length operands.length)

/-- The opcode of a byte. -/
def Opcode.ofByte (code : UInt8) : Except Error Opcode :=
  match Opcode.ofCode? code with
  | some op => .ok op
  | none => .error ⟨[], .unknownOpcode code⟩

/-- Names the opcode in whose checks a cause arose. -/
def Cause.underOpcode {α : Type} (op : Opcode) : Except Cause α → Except Error α
  | .ok a => .ok a
  | .error cause => .error ⟨op.name, cause⟩

end StackMachine
