import StackMachine.Register
import StackMachine.Text.IntLiteral
import StackMachine.Text.Number

namespace StackMachine

inductive Operand where
  | reg (name : Bytes)
  | imm (v : Int64)
  deriving DecidableEq

namespace Operand

/-- Reads a source word: an integer literal, or else the name of a register. -/
def ofToken (token : Bytes) : Operand :=
  match int? (trimmed token) with
  | some v => .imm v
  | none => .reg (trimmed token)

/-- The operand as it is written in a statement. -/
def text : Operand → Bytes
  | .reg name => upper name
  | .imm v => value v

end Operand

/-- A word and its operands, separated by blanks. -/
def lineText (word : Bytes) (operands : List Operand) : Bytes :=
  joined (utf8 " ") (word :: operands.map Operand.text)

end StackMachine
