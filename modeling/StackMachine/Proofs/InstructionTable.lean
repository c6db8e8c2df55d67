import StackMachine.Proofs.ExactArithmetic
import StackMachine.Proofs.MachineView

namespace StackMachine

/-- The values on the stack, top first, and those of the registers. -/
@[ext] structure Picture where
  stack : List Int
  registers : Register → Int

namespace Picture

def set (p : Picture) (r : Register) (v : Int) : Picture :=
  { p with registers := fun x => if x = r then v else p.registers x }

/-- Another stack; the register SP follows it. -/
def withStack (p : Picture) (stack : List Int) : Picture :=
  { p with stack }.set .sp (wrapWord (stack.length - 1))

def advance (p : Picture) (bytes : Nat) : Picture := p.set .ip (wrapWord (p.registers .ip + bytes))

def top (p : Picture) : Int := p.stack.headD 0

def second (p : Picture) : Int := p.stack.tail.headD 0

end Picture

def Machine.picture (m : Machine) : Picture :=
  ⟨m.stack.values.map Int64.toInt, fun r => (m.registers.get r).toInt⟩

namespace InstructionTable

/-- A condition, and the kind of failure where it does not hold. -/
structure Check where
  passes : Bool
  kind : Kind

/-- The kind of the first check that does not pass. -/
def firstViolation : List Check → Option Kind
  | [] => none
  | check :: checks => if check.passes then firstViolation checks else some check.kind

/-- Whether an operand is of the kind that its position holds. -/
def operandCheck : OperandKind → Operand → Check
  | .register, .reg name => ⟨(Register.ofName? name).isSome, .invalidRegister⟩
  | .register, .imm _ => ⟨false, .invalidRegister⟩
  | _, .imm _ => ⟨true, .invalidOperand⟩
  | _, .reg _ => ⟨false, .invalidOperand⟩

/-- The number of the operands, then their kinds by position. -/
def operandChecks (kinds : List OperandKind) (operands : List Operand) : List Check :=
  ⟨operands.length == kinds.length, .invalidOperand⟩ :: List.zipWith operandCheck kinds operands

/-- An operand that stands for something. -/
inductive Argument where
  | register (r : Register)
  | number (v : Int)

def argument? : Operand → Option Argument
  | .reg name => (Register.ofName? name).map .register
  | .imm v => some (.number v.toInt)

/-- The checks of an instruction, and what it leaves. -/
structure Row where
  checks : List Check
  result : Picture

def room (capacity : Nat) (p : Picture) : Check := ⟨p.stack.length < capacity, .stackOverflow⟩

def depth (n : Nat) (p : Picture) : Check := ⟨n ≤ p.stack.length, .stackUnderflow⟩

def writable (r : Register) : Check := ⟨r ≠ .ip ∧ r ≠ .sp, .invalidRegister⟩

def representable (v : Int) : Check := ⟨FitsWord v, .arithmeticOverflow⟩

/-- The two topmost values give way to one. -/
def combined (p : Picture) (v : Int) : Picture := (p.advance 1).withStack (v :: p.stack.drop 2)

/-- The same, and with the latch the operands and the result also go to A, B and C. -/
def latched (latch : Bool) (p : Picture) (v : Int) : Picture :=
  if latch then (((combined p v).set .a p.top).set .b p.second).set .c v else combined p v

/-- A branch to a target, on some outcome of its test. -/
def branch (p : Picture) (taken : Bool) (target : Int) : Row :=
  ⟨[⟨0 ≤ target, .invalidOperand⟩], if taken then p.set .ip target else p.advance 4⟩

/-- The table. Rows that do not fit their arguments are never read, since the operands are checked first. -/
def row (capacity : Nat) (latch : Bool) (p : Picture) : Opcode → List Argument → Row
  | .hlt, _ => ⟨[], p⟩
  | .psh, [.number v] => ⟨[room capacity p], (p.advance 2).withStack (v :: p.stack)⟩
  | .pop, _ => ⟨[depth 1 p], (p.advance 1).withStack (p.stack.drop 1)⟩
  | .add, _ => ⟨[depth 2 p, representable (p.second + p.top)], latched latch p (p.second + p.top)⟩
  | .mul, _ => ⟨[depth 2 p, representable (p.second * p.top)], latched latch p (p.second * p.top)⟩
  | .div, _ =>
    ⟨[depth 2 p, ⟨p.top ≠ 0, .divideByZero⟩, representable (p.second.tdiv p.top)],
      latched latch p (p.second.tdiv p.top)⟩
  | .sub, _ => ⟨[depth 2 p, representable (p.second - p.top)], latched latch p (p.second - p.top)⟩
  | .slt, _ => ⟨[depth 2 p], combined p (if p.second < p.top then 1 else 0)⟩
  | .mov, [.register source, .register target] =>
    ⟨[writable target], (p.advance 3).set target (p.registers source)⟩
  | .set, [.register target, .number v] => ⟨[writable target], (p.advance 3).set target v⟩
  | .log, _ => ⟨[], p.advance 2⟩
  | .ifEq, [.register source, .number wanted, .number target] => branch p (p.registers source = wanted) target
  | .ifNe, [.register source, .number wanted, .number target] => branch p (p.registers source ≠ wanted) target
  | .gld, [.register source] => ⟨[room capacity p], (p.advance 2).withStack (p.registers source :: p.stack)⟩
  | .gpt, [.register target] => ⟨[depth 1 p, writable target], (p.advance 2).set target p.top⟩
  | .nop, _ => ⟨[], p.advance 1⟩
  | _, _ => ⟨[], p⟩

/-- What the table says of an instruction: the kind of the first check that fails, or what is left. -/
def outcome (capacity : Nat) (latch : Bool) (p : Picture) (code : UInt8) (operands : List Operand) :
    Except Kind Picture :=
  match Opcode.ofCode? code with
  | none => .error .invalidOpcode
  | some op =>
    let row := row capacity latch p op (operands.filterMap argument?)
    match firstViolation (operandChecks op.definition.operands operands ++ row.checks) with
    | some kind => .error kind
    | none => .ok row.result

theorem firstViolation_append (first second : List Check) :
    firstViolation (first ++ second) = (firstViolation first).or (firstViolation second) := by
  induction first with
  | nil => simp [firstViolation]
  | cons check checks ih =>
    simp only [List.cons_append, firstViolation, ih]
    split <;> simp

def arguments : Action → List Argument
  | .halt | .nothing | .drop | .combine _ => []
  | .push v => [.number v.toInt]
  | .copy source target => [.register source, .register target]
  | .assign target v => [.register target, .number v.toInt]
  | .report source => [.register source]
  | .branch _ source wanted target => [.register source, .number wanted.toInt, .number target.toInt]
  | .load source => [.register source]
  | .store target => [.register target]

end InstructionTable

end StackMachine
