import StackMachine.Instruction

namespace StackMachine

/-- The operands of an action, registers by their own names. -/
def Action.operands : Action → List Operand
  | .halt | .nothing | .drop | .combine _ => []
  | .push v => [.imm v]
  | .copy source target => [.reg source.name, .reg target.name]
  | .assign target v => [.reg target.name, .imm v]
  | .report source => [.reg source.name]
  | .branch _ source wanted target => [.reg source.name, .imm wanted, .imm target]
  | .load source => [.reg source.name]
  | .store target => [.reg target.name]

/-- The byte of an integer operand. -/
def operandByte (v : Int64) : Except Cause UInt8 :=
  if 0 ≤ v ∧ v ≤ 0xFF then .ok v.toInt.toNat.toUInt8 else .error (.wideOperand v)

def Register.byte (r : Register) : UInt8 := r.index.val.toUInt8

/-- The operand bytes of an action. -/
def Action.operandBytes : Action → Except Cause Bytes
  | .halt | .nothing | .drop | .combine _ => return []
  | .push v => return [← operandByte v]
  | .copy source target => return [source.byte, target.byte]
  | .assign target v => return [target.byte, ← operandByte v]
  | .report source => return [source.byte]
  | .branch _ source wanted target => return [source.byte, ← operandByte wanted, ← operandByte target]
  | .load source => return [source.byte]
  | .store target => return [target.byte]

/-- The bytes of an instruction given by its opcode byte and operands. -/
def encodeInstruction (code : UInt8) (operands : List Operand) : Except Error Bytes := do
  let op ← Opcode.ofByte code
  Cause.underOpcode op do
    let action ← Action.ofOperands op operands
    return code :: (← action.operandBytes)

/-- Reads one byte per operand kind; `offset` is the place of the first one in the code. -/
def readOperands : List OperandKind → Bytes → Nat → Except Cause (List Operand)
  | [], _, _ => .ok []
  | kind :: kinds, bytes, offset => do
    let b := bytes.headD 0
    let operand ← match kind with
      | .register =>
        match Register.ofIndex? b.toNat with
        | some r => .ok (.reg r.name)
        | none => .error (.registerIndex b offset)
      | _ => .ok (.imm (Int64.ofNat b.toNat))
    return operand :: (← readOperands kinds bytes.tail (offset + 1))

/-- Reads the instruction that begins with a byte; `offset` is the place of that byte in the code. -/
def readInstruction (offset : Nat) (first : UInt8) (rest : Bytes) : Except Error Instruction :=
  match Opcode.ofCode? first with
  | none => .error ⟨[], .unknownByte first offset⟩
  | some op =>
    Cause.underOpcode op do
      let kinds := op.definition.operands
      if rest.length < kinds.length then throw (.truncated offset kinds.length)
      return ⟨op, ← readOperands kinds rest (offset + 1)⟩

/-- Reads the instruction at a place in the code. -/
def decodeAt (code : Bytes) (ip : Int64) : Except Error Instruction :=
  if ip < 0 then .error ⟨[], .outsideCode ip code.length⟩
  else match code.drop ip.toInt.toNat with
    | [] => .error ⟨[], .outsideCode ip code.length⟩
    | first :: rest => readInstruction ip.toInt.toNat first rest

end StackMachine
