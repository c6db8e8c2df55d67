import StackMachine.Text.Blank
import StackMachine.Text.Case

namespace StackMachine

inductive RegisterClass where
  | general
  | special
  | pointer
  deriving DecidableEq

def RegisterClass.text : RegisterClass → Bytes
  | .general => utf8 "general"
  | .special => utf8 "special"
  | .pointer => utf8 "pointer"

def RegisterClass.all : List RegisterClass := [.general, .special, .pointer]

/-- The name of a class by its number, `unknown` beyond the last one. -/
def RegisterClass.textOfCode (n : Nat) : Bytes := (all[n]?.map text).getD (utf8 "unknown")

inductive Register where
  | a | b | c | d | e | f | i | j | ex | exa | ip | sp
  deriving DecidableEq

namespace Register

/-- Every register, in display order. -/
def all : List Register := [.a, .b, .c, .d, .e, .f, .i, .j, .ex, .exa, .ip, .sp]

/-- The place of a register in display order, which is also its operand byte. -/
def index : Register → Fin 12
  | .a => 0 | .b => 1 | .c => 2 | .d => 3 | .e => 4 | .f => 5
  | .i => 6 | .j => 7 | .ex => 8 | .exa => 9 | .ip => 10 | .sp => 11

def name : Register → Bytes
  | .a => utf8 "A" | .b => utf8 "B" | .c => utf8 "C" | .d => utf8 "D" | .e => utf8 "E" | .f => utf8 "F"
  | .i => utf8 "I" | .j => utf8 "J" | .ex => utf8 "EX" | .exa => utf8 "EXA" | .ip => utf8 "IP" | .sp => utf8 "SP"

/-- The role of a register; pointers are written by the engine only. -/
def role : Register → RegisterClass
  | .ex | .exa => .special
  | .ip | .sp => .pointer
  | _ => .general

def description : Register → Bytes
  | .i | .j => utf8 "General purpose (index)"
  | .ex => utf8 "Excess / overflow result"
  | .exa => utf8 "Additional excess"
  | .ip => utf8 "Instruction pointer"
  | .sp => utf8 "Stack pointer"
  | _ => utf8 "General purpose"

def ofIndex? (n : Nat) : Option Register := all[n]?

/-- The register at a place that may lie outside the set. -/
def ofNumber? (n : Int) : Option Register := if n < 0 then none else ofIndex? n.toNat

/-- The register a text names. -/
def ofName? (text : Bytes) : Option Register :=
  let wanted := upper (trimmed text)
  all.find? (·.name == wanted)

end Register

end StackMachine
