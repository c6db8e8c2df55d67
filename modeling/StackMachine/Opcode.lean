import StackMachine.Text.Blank
import StackMachine.Text.Case

namespace StackMachine

inductive Opcode where
  | hlt | psh | pop | add | mul | div | sub | slt | mov | set | log | ifEq | ifNe | gld | gpt | nop
  deriving DecidableEq

namespace Opcode

/-- Every opcode, in the order of its byte. -/
def all : List Opcode :=
  [.hlt, .psh, .pop, .add, .mul, .div, .sub, .slt, .mov, .set, .log, .ifEq, .ifNe, .gld, .gpt, .nop]

def index : Opcode → Fin 16
  | .hlt => 0 | .psh => 1 | .pop => 2 | .add => 3 | .mul => 4 | .div => 5 | .sub => 6 | .slt => 7
  | .mov => 8 | .set => 9 | .log => 10 | .ifEq => 11 | .ifNe => 12 | .gld => 13 | .gpt => 14 | .nop => 15

/-- The first byte of an encoded instruction. -/
def code (op : Opcode) : UInt8 := op.index.val.toUInt8

def ofCode? (code : UInt8) : Option Opcode := all[code.toNat]?

def name : Opcode → Bytes
  | .hlt => utf8 "HLT" | .psh => utf8 "PSH" | .pop => utf8 "POP" | .add => utf8 "ADD"
  | .mul => utf8 "MUL" | .div => utf8 "DIV" | .sub => utf8 "SUB" | .slt => utf8 "SLT"
  | .mov => utf8 "MOV" | .set => utf8 "SET" | .log => utf8 "LOG" | .ifEq => utf8 "IF"
  | .ifNe => utf8 "IFN" | .gld => utf8 "GLD" | .gpt => utf8 "GPT" | .nop => utf8 "NOP"

/-- The opcode a text names. -/
def ofName? (text : Bytes) : Option Opcode :=
  let wanted := upper (trimmed text)
  all.find? (·.name == wanted)

/-- The mnemonic of an opcode byte, `UNKNOWN` for a byte that is none. -/
def nameOfCode (code : UInt8) : Bytes := ((ofCode? code).map name).getD (utf8 "UNKNOWN")

/-- Whether the opcode takes two values off the stack and leaves one. -/
def isBinary : Opcode → Bool
  | .add | .sub | .mul | .div | .slt => true
  | _ => false

/-- Whether the values the opcode takes off the stack are shown before it is committed. -/
def isStaged (op : Opcode) : Bool := op == .pop || op.isBinary

/-- The same for a byte; one that is no opcode takes nothing. -/
def isStagedCode (code : UInt8) : Bool := (ofCode? code).any isStaged

/-- The entry after a byte in the catalog, which is read in a circle. -/
def after (code : UInt8) : Opcode :=
  all.get ⟨(code.toNat + 1) % 16, Nat.mod_lt _ (by decide)⟩

end Opcode

end StackMachine
