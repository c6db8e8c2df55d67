import StackMachine.Catalog
import StackMachine.Text.Quoted

namespace StackMachine

/-- The nature of a failure, by number. -/
structure Kind where
  code : Int
  deriving DecidableEq

namespace Kind

def stackOverflow : Kind := ⟨1⟩
def stackUnderflow : Kind := ⟨2⟩
def divideByZero : Kind := ⟨3⟩
def invalidRegister : Kind := ⟨4⟩
def invalidOpcode : Kind := ⟨5⟩
def invalidOperand : Kind := ⟨6⟩
def arithmeticOverflow : Kind := ⟨7⟩
def commitPending : Kind := ⟨8⟩
def nothingPending : Kind := ⟨9⟩
def stepLimit : Kind := ⟨10⟩
def noHalt : Kind := ⟨11⟩

def text (k : Kind) : Bytes :=
  match k.code with
  | 1 => utf8 "stack overflow"
  | 2 => utf8 "stack underflow"
  | 3 => utf8 "divide by zero"
  | 4 => utf8 "invalid register"
  | 5 => utf8 "invalid opcode"
  | 6 => utf8 "invalid operand"
  | 7 => utf8 "arithmetic overflow"
  | 8 => utf8 "commit pending"
  | 9 => utf8 "nothing to commit"
  | 10 => utf8 "step limit exceeded"
  | 11 => utf8 "program ended without HLT"
  | n => utf8 "error kind " ++ decimal n

end Kind

/-- What was wrong with a call. -/
inductive Cause where
  | unknownMnemonic (name : Bytes)
  | unknownOpcode (code : UInt8)
  | operandCount (signature : Bytes) (wanted given : Nat)
  | notRegister (position : Nat) (v : Int64)
  | unknownRegister (name : Bytes)
  | notInteger (position : Nat) (wanted : OperandKind) (name : Bytes)
  | engineRegister (r : Register)
  | stackFull
  | stackEmpty
  | stackShallow
  | zeroDivisor (dividend : Int64)
  | overflow (second : Int64) (symbol : Bytes) (top : Int64)
  | negativeTarget (target : Int64)
  | awaitingCommit
  | insideCallback
  | nothingAnnounced
  | stepsSpent (limit : Int64)
  | outsideCode (ip : Int64) (size : Nat)
  | unknownByte (code : UInt8) (offset : Nat)
  | truncated (offset needed : Nat)
  | registerIndex (index : UInt8) (offset : Nat)
  | wideOperand (v : Int64)
  deriving DecidableEq

namespace Cause

def kind : Cause → Kind
  | .unknownMnemonic _ | .unknownOpcode _ | .unknownByte .. => .invalidOpcode
  | .operandCount .. | .notInteger .. | .negativeTarget _ | .truncated .. | .wideOperand _ => .invalidOperand
  | .notRegister .. | .unknownRegister _ | .engineRegister _ | .registerIndex .. => .invalidRegister
  | .stackFull => .stackOverflow
  | .stackEmpty | .stackShallow => .stackUnderflow
  | .zeroDivisor _ => .divideByZero
  | .overflow .. => .arithmeticOverflow
  | .awaitingCommit | .insideCallback => .commitPending
  | .nothingAnnounced => .nothingPending
  | .stepsSpent _ => .stepLimit
  | .outsideCode .. => .noHalt

def detail : Cause → Bytes
  | .unknownMnemonic name => quoted name
  | .unknownOpcode code => utf8 "opcode " ++ hexByte code
  | .operandCount signature wanted given =>
    utf8 "want " ++ decimalNat wanted ++ utf8 " operands (" ++ signature ++ utf8 "), got " ++ decimalNat given
  | .notRegister position v =>
    utf8 "operand " ++ decimalNat position ++ utf8 ": " ++ value v ++ utf8 " is not a register"
  | .unknownRegister name => quoted name
  | .notInteger position wanted name =>
    utf8 "operand " ++ decimalNat position ++ utf8 ": want " ++ wanted.text ++ utf8 ", got register " ++ name
  | .engineRegister r => r.name ++ utf8 " is written only by the engine"
  | .stackFull => utf8 "stack full"
  | .stackEmpty => utf8 "stack empty"
  | .stackShallow => utf8 "need at least 2 values"
  | .zeroDivisor dividend => value dividend ++ utf8 " / 0"
  | .overflow second symbol top => value second ++ utf8 " " ++ symbol ++ utf8 " " ++ value top
  | .negativeTarget target => utf8 "branch target " ++ value target
  | .awaitingCommit => utf8 "engine is awaiting-commit"
  | .insideCallback => utf8 "dispatch from inside an observer callback"
  | .nothingAnnounced => utf8 "no announced transaction"
  | .stepsSpent limit => value limit ++ utf8 " steps"
  | .outsideCode ip size => utf8 "ip " ++ value ip ++ utf8 " outside code of " ++ decimalNat size ++ utf8 " bytes"
  | .unknownByte code offset => utf8 "byte " ++ hexByte code ++ utf8 " at " ++ decimalNat offset
  | .truncated offset needed =>
    utf8 "truncated at " ++ decimalNat offset ++ utf8 ": need " ++ decimalNat needed ++ utf8 " operand bytes"
  | .registerIndex index offset =>
    utf8 "register index " ++ decimalNat index.toNat ++ utf8 " at " ++ decimalNat offset
  | .wideOperand v => value v ++ utf8 " does not fit in an operand byte"

end Cause

/-- An error in its flat form: its kind, the operation it belongs to and some context, the last two possibly empty. -/
structure Complaint where
  kind : Kind
  op : Bytes
  detail : Bytes
  deriving DecidableEq

namespace Complaint

/-- The message without the operation. -/
def body (c : Complaint) : Bytes :=
  if c.detail.isEmpty then c.kind.text else c.kind.text ++ utf8 ": " ++ c.detail

def message (c : Complaint) : Bytes :=
  if c.op.isEmpty then c.body else c.op ++ utf8 ": " ++ c.body

end Complaint

/-- A refused call: the operation named in its message, if any, and the cause. -/
structure Error where
  op : Bytes
  cause : Cause
  deriving DecidableEq

namespace Error

def kind (e : Error) : Kind := e.cause.kind

def complaint (e : Error) : Complaint := ⟨e.cause.kind, e.op, e.cause.detail⟩

def message (e : Error) : Bytes := e.complaint.message

/-- The message without the operation, as observers see it. -/
def body (e : Error) : Bytes := e.complaint.body

end Error

end StackMachine
