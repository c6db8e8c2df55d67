import StackMachine.Opcode
import StackMachine.Register
import StackMachine.Text.Number

namespace StackMachine

/-- What an operand position holds. -/
inductive OperandKind where
  | register
  | integer
  | target
  deriving DecidableEq

def OperandKind.text : OperandKind → Bytes
  | .register => utf8 "reg"
  | .integer => utf8 "val"
  | .target => utf8 "ip"

def OperandKind.all : List OperandKind := [.register, .integer, .target]

/-- The signature word of an operand kind by its number, a question mark beyond the last one. -/
def OperandKind.textOfCode (n : Nat) : Bytes := (all[n]?.map text).getD (utf8 "?")

/-- The emphasis of a box in a stack picture. -/
inductive Emphasis where
  | plain
  | top
  | second
  | result
  deriving DecidableEq

def Emphasis.text : Emphasis → Bytes
  | .plain => []
  | .top => utf8 "top"
  | .second => utf8 "sec"
  | .result => utf8 "res"

/-- One labelled box of a stack picture. -/
structure Box where
  label : Bytes
  emphasis : Emphasis
  deriving DecidableEq

/-- The stack before and after an instruction, top first; the last box stands for the rest of the stack. -/
structure Diagram where
  before : List Box
  after : List Box
  deriving DecidableEq

def Diagram.boxesText (boxes : List Box) : Bytes :=
  utf8 "[" ++ joined (utf8 "|") (boxes.map Box.label) ++ utf8 "]"

/-- The picture on one line. -/
def Diagram.text (d : Diagram) : Bytes :=
  boxesText d.before ++ utf8 " -> " ++ boxesText d.after

structure Definition where
  op : Opcode
  signature : Bytes
  operands : List OperandKind
  description : Bytes
  effect : Bytes
  diagram : Option Diagram
  deriving DecidableEq

def restBox : Box := ⟨utf8 "...", .plain⟩

def topBox : Box := ⟨utf8 "top", .top⟩

/-- The picture of an instruction that pushes one value. -/
def pushDiagram (label : String) : Diagram := ⟨[restBox], [⟨utf8 label, .result⟩, restBox]⟩

/-- The picture of an instruction that combines the two topmost values. -/
def binaryDiagram (label : String) : Diagram :=
  ⟨[⟨utf8 "A (top)", .top⟩, ⟨utf8 "B", .second⟩, restBox], [⟨utf8 label, .result⟩, restBox]⟩

def Opcode.definition : Opcode → Definition
  | .hlt => ⟨.hlt, utf8 "hlt", [], utf8 "Halt execution", utf8 "Stops the main loop. No stack changes.", none⟩
  | .psh => ⟨.psh, utf8 "psh val", [.integer], utf8 "Push value onto stack",
      utf8 "Increments SP, then writes <val> to stack[SP]. IP advances by 1 extra to skip the operand byte.",
      some (pushDiagram "val")⟩
  | .pop => ⟨.pop, utf8 "pop", [], utf8 "Pop top of stack",
      utf8 "Empties stack[SP] and decrements SP. The value is discarded.",
      some ⟨[topBox, restBox], [restBox]⟩⟩
  | .add => ⟨.add, utf8 "add", [], utf8 "Add top two stack values",
      utf8 "Pops A, pops B, pushes B + A. Net: consumes 2 values, leaves 1 result.", some (binaryDiagram "B+A")⟩
  | .mul => ⟨.mul, utf8 "mul", [], utf8 "Multiply top two stack values",
      utf8 "Pops A, pops B, pushes B * A.", some (binaryDiagram "B*A")⟩
  | .div => ⟨.div, utf8 "div", [], utf8 "Divide top two stack values",
      utf8 "Pops A, pops B, pushes B / A truncated toward zero. A zero divisor is rejected.",
      some (binaryDiagram "B/A")⟩
  | .sub => ⟨.sub, utf8 "sub", [], utf8 "Subtract top two stack values",
      utf8 "Pops A, pops B, pushes B - A.", some (binaryDiagram "B-A")⟩
  | .slt => ⟨.slt, utf8 "slt", [], utf8 "Set less than",
      utf8 "Pops top, pops second, pushes 1 if second < top else 0. Net: consumes 2, leaves 0 or 1.",
      some ⟨[topBox, ⟨utf8 "second", .second⟩, restBox], [⟨utf8 "0 or 1", .result⟩, restBox]⟩⟩
  | .mov => ⟨.mov, utf8 "mov reg_a reg_b", [.register, .register], utf8 "Copy register value",
      utf8 "reg_b = reg_a. No stack interaction. IP advances by 2 extra to skip both operand bytes.", none⟩
  | .set => ⟨.set, utf8 "set reg val", [.register, .integer], utf8 "Set register to value",
      utf8 "registers[reg] = val. No stack interaction. IP advances by 2 extra.", none⟩
  | .log => ⟨.log, utf8 "log reg", [.register], utf8 "Print register value",
      utf8 "Reports registers[reg] to the log. No stack changes. IP advances 1 extra.", none⟩
  | .ifEq => ⟨.ifEq, utf8 "if reg val ip", [.register, .integer, .target], utf8 "Branch if equal",
      utf8 "If registers[reg] == val, sets IP = target (jump). Otherwise IP skips the 3 operand bytes. " ++
        utf8 "Stack is untouched.", none⟩
  | .ifNe => ⟨.ifNe, utf8 "ifn reg val ip", [.register, .integer, .target], utf8 "Branch if not equal",
      utf8 "If registers[reg] != val, sets IP = target (jump). Otherwise IP skips 3 operand bytes. " ++
        utf8 "Stack is untouched.", none⟩
  | .gld => ⟨.gld, utf8 "gld reg", [.register], utf8 "Load register onto stack",
      utf8 "Increments SP, then writes registers[reg] to stack[SP].", some (pushDiagram "reg")⟩
  | .gpt => ⟨.gpt, utf8 "gpt reg", [.register], utf8 "Copy top of stack into register",
      utf8 "Sets registers[reg] = stack[SP]. Does NOT decrement SP; the value stays on the stack.",
      some ⟨[topBox, restBox], [topBox, restBox]⟩⟩
  | .nop => ⟨.nop, utf8 "nop", [], utf8 "No operation", utf8 "Does nothing. SP and stack are unchanged.", none⟩

/-- The definitions of every opcode, in the order of its byte. -/
def catalog : List Definition := Opcode.all.map Opcode.definition

/-- The encoded length of an instruction in bytes. -/
def Opcode.size (op : Opcode) : Nat := 1 + op.definition.operands.length

/-- The bytes of an instruction that starts with a byte; one that is no opcode stands alone. -/
def Opcode.sizeOfCode (code : UInt8) : Nat := ((Opcode.ofCode? code).map Opcode.size).getD 1

def Definition.touchesStack (d : Definition) : Bool := d.diagram.isSome

/-- The picture of the stack, empty when the opcode leaves the stack alone. -/
def Definition.diagramText (d : Definition) : Bytes := (d.diagram.map Diagram.text).getD []

/-- A description of one opcode on a few lines. -/
def Definition.summary (d : Definition) : Bytes :=
  d.signature ++ utf8 " (" ++ hexByte d.op.code ++ utf8 ", " ++ decimalNat d.op.size ++ utf8 " bytes)\n" ++
    utf8 "  " ++ d.description ++ utf8 "\n" ++
    utf8 "  effect: " ++ d.effect ++ utf8 "\n" ++
    if d.touchesStack then utf8 "  stack:  " ++ d.diagramText ++ utf8 "\n" else []

end StackMachine
