import StackMachine.Proofs.InstructionTable
import StackMachine.Proofs.Invariant

namespace StackMachine

open InstructionTable

/-- The computation fails as the first check that does not pass says, and otherwise gives something with a property. -/
def Agrees {α : Type} (checks : List Check) (r : Except Cause α) (Q : α → Prop) : Prop :=
  match firstViolation checks with
  | some kind => ∃ cause, r = .error cause ∧ cause.kind = kind
  | none => ∃ a, r = .ok a ∧ Q a

namespace Agrees

variable {α β : Type} {check : Check} {checks : List Check} {r : Except Cause α} {Q : α → Prop}

theorem ok {a : α} (h : Q a) : Agrees [] (.ok a) Q := ⟨a, rfl, h⟩

theorem failed {cause : Cause} (hp : check.passes = false) (hk : cause.kind = check.kind) :
    Agrees (check :: checks) (.error cause) Q := by
  simp only [Agrees, firstViolation, hp, Bool.false_eq_true, if_false]
  exact ⟨cause, rfl, hk⟩

theorem passed (hp : check.passes = true) (h : Agrees checks r Q) : Agrees (check :: checks) r Q := by
  simpa only [Agrees, firstViolation, hp, if_true] using h

/-- A test that is made where the check is. -/
theorem guarded {c : Prop} [Decidable c] {cause : Cause} (hp : check.passes = true ↔ ¬ c)
    (hk : cause.kind = check.kind) (h : ¬ c → Agrees checks r Q) :
    Agrees (check :: checks) (if c then .error cause else r) Q := by
  by_cases hc : c
  · rw [if_pos hc]
    have hfails : check.passes = false := by
      rw [← Bool.not_eq_true, hp]
      exact fun h => h hc
    exact failed hfails hk
  · rw [if_neg hc]
    exact passed (hp.mpr hc) (h hc)

/-- A part of the computation with its own checks, and the rest of it. -/
theorem bind {first second : List Check} {f : α → Except Cause β} {P : β → Prop} (hr : Agrees first r Q)
    (hf : ∀ a, Q a → Agrees second (f a) P) : Agrees (first ++ second) (r >>= f) P := by
  unfold Agrees at hr ⊢
  rw [firstViolation_append]
  cases hv : firstViolation first with
  | some kind =>
    rw [hv] at hr
    obtain ⟨cause, rfl, hk⟩ := hr
    exact ⟨cause, rfl, hk⟩
  | none =>
    rw [hv] at hr
    obtain ⟨a, rfl, ha⟩ := hr
    exact hf a ha

end Agrees

namespace InstructionTable

theorem register_agrees (o : Operand) (position : Nat) :
    Agrees [operandCheck .register o] (o.register position) fun r => argument? o = some (.register r) := by
  cases o with
  | imm v => exact .failed rfl rfl
  | reg name =>
    cases hn : Register.ofName? name with
    | none =>
      simp only [Operand.register, hn]
      exact .failed (by simp [operandCheck, hn]) rfl
    | some r =>
      simp only [Operand.register, hn]
      exact .passed (by simp [operandCheck, hn]) (.ok (by simp [argument?, hn]))

theorem integer_agrees (o : Operand) (position : Nat) {kind : OperandKind} (hk : kind ≠ .register) :
    Agrees [operandCheck kind o] (o.integer position kind) fun v => argument? o = some (.number v.toInt) := by
  cases kind with
  | register => exact absurd rfl hk
  | integer | target =>
    cases o with
    | imm v => exact .passed rfl (.ok rfl)
    | reg name => exact .failed rfl rfl

/-- The operands are right for an opcode, and the action that they make up has them as its arguments. -/
def Stands (op : Opcode) (operands : List Operand) (action : Action) : Prop :=
  action.opcode = op ∧ arguments action = operands.filterMap argument?

/-- Operands of the wrong number fail the first check. -/
theorem count_agrees {op : Opcode} {operands : List Operand} {Q : Action → Prop}
    (hl : operands.length ≠ op.definition.operands.length)
    (h : Action.ofOperands op operands =
      throw (.operandCount op.definition.signature op.definition.operands.length operands.length)) :
    Agrees (operandChecks op.definition.operands operands) (Action.ofOperands op operands) Q := by
  rw [h]
  exact .failed (by simpa using hl) rfl

theorem ofOperands_agrees (op : Opcode) (operands : List Operand) :
    Agrees (operandChecks op.definition.operands operands) (Action.ofOperands op operands)
      (Stands op operands) := by
  cases op with
  | hlt | pop | add | mul | div | sub | slt | nop =>
    cases operands with
    | nil => exact .passed rfl (.ok ⟨rfl, rfl⟩)
    | cons o rest => exact count_agrees (by simp [Opcode.definition]) rfl
  | psh =>
    match operands with
    | [] => exact count_agrees (by simp [Opcode.definition]) rfl
    | [o] =>
      apply Agrees.passed rfl
      apply Agrees.bind (integer_agrees o 1 (by decide))
      intro v hv
      exact .ok ⟨rfl, by simp [arguments, hv]⟩
    | _ :: _ :: _ => exact count_agrees (by simp [Opcode.definition]) rfl
  | log | gld | gpt =>
    match operands with
    | [] => exact count_agrees (by simp [Opcode.definition]) rfl
    | [o] =>
      apply Agrees.passed rfl
      apply Agrees.bind (register_agrees o 1)
      intro r hr
      exact .ok ⟨rfl, by simp [arguments, hr]⟩
    | _ :: _ :: _ => exact count_agrees (by simp [Opcode.definition]) rfl
  | mov =>
    match operands with
    | [] | [_] | _ :: _ :: _ :: _ => exact count_agrees (by simp [Opcode.definition]) rfl
    | [o, o'] =>
      apply Agrees.passed rfl
      apply Agrees.bind (register_agrees o 1)
      intro r hr
      apply Agrees.bind (register_agrees o' 2)
      intro r' hr'
      exact .ok ⟨rfl, by simp [arguments, hr, hr']⟩
  | set =>
    match operands with
    | [] | [_] | _ :: _ :: _ :: _ => exact count_agrees (by simp [Opcode.definition]) rfl
    | [o, o'] =>
      apply Agrees.passed rfl
      apply Agrees.bind (register_agrees o 1)
      intro r hr
      apply Agrees.bind (integer_agrees o' 2 (by decide))
      intro v hv
      exact .ok ⟨rfl, by simp [arguments, hr, hv]⟩
  | ifEq | ifNe =>
    match operands with
    | [] | [_] | [_, _] | _ :: _ :: _ :: _ :: _ => exact count_agrees (by simp [Opcode.definition]) rfl
    | [o, o', o''] =>
      apply Agrees.passed rfl
      apply Agrees.bind (register_agrees o 1)
      intro r hr
      apply Agrees.bind (integer_agrees o' 2 (by decide))
      intro wanted hw
      apply Agrees.bind (integer_agrees o'' 3 (by decide))
      intro target ht
      exact .ok ⟨rfl, by simp [arguments, hr, hw, ht]⟩

end InstructionTable

namespace Picture

/-- Writes one register after the other. -/
def setAll (p : Picture) (writes : List (Register × Int64)) : Picture :=
  writes.foldl (fun p w => p.set w.1 w.2.toInt) p

@[simp] theorem setAll_nil (p : Picture) : p.setAll [] = p := rfl

@[simp] theorem setAll_cons (p : Picture) (w : Register × Int64) (writes : List (Register × Int64)) :
    p.setAll (w :: writes) = (p.set w.1 w.2.toInt).setAll writes := rfl

theorem set_registers (p : Picture) (r r' : Register) (v : Int) :
    (p.set r v).registers r' = if r' = r then v else p.registers r' := rfl

theorem withStack_registers (p : Picture) (stack : List Int) (r : Register) :
    (p.withStack stack).registers r = if r = .sp then wrapWord (stack.length - 1) else p.registers r := rfl

theorem setAll_stack (p : Picture) (writes : List (Register × Int64)) : (p.setAll writes).stack = p.stack := by
  induction writes generalizing p with
  | nil => rfl
  | cons w writes ih => rw [setAll_cons, ih]; rfl

/-- Writing to a picture follows writing to a register file, register by register. -/
theorem setAll_registers {p : Picture} {file : RegisterFile} {r : Register} (writes : List (Register × Int64))
    (h : p.registers r = (file.get r).toInt) :
    (p.setAll writes).registers r = ((file.setAll writes).get r).toInt := by
  induction writes generalizing p file with
  | nil => exact h
  | cons w writes ih =>
    rw [setAll_cons, RegisterFile.setAll_cons]
    apply ih
    rw [set_registers, RegisterFile.get_set]
    by_cases hr : r = w.1
    · rw [if_pos hr, if_pos hr.symm]
    · rw [if_neg hr, if_neg (Ne.symm hr), h]

theorem setAll_registers_of_untouched {p : Picture} {writes : List (Register × Int64)} {r : Register}
    (h : ∀ w ∈ writes, w.1 ≠ r) : (p.setAll writes).registers r = p.registers r := by
  induction writes generalizing p with
  | nil => rfl
  | cons w writes ih =>
    have hw : r ≠ w.1 := Ne.symm (h w (by simp))
    rw [setAll_cons, ih fun x hx => h x (List.mem_cons_of_mem w hx), set_registers, if_neg hw]

end Picture

namespace Machine

variable {m : Machine} {t : Transaction}

theorem Valid.picture_sp (hm : m.Valid) : m.picture.registers .sp = wrapWord (m.picture.stack.length - 1) := by
  simp only [picture, List.length_map, hm.spRegister, toInt_ofInt_wrapWord, Machine.sp, hm.stack.sp_eq]

/-- In a picture, a transaction moves IP, replaces the popped values by the pushed one and writes its registers. -/
theorem picture_commit (hm : m.Valid) (hw : t.Within m.stack) :
    (m.commit t).1.picture =
      ((m.picture.set .ip t.nextIP.toInt).withStack
        (t.pushed.map Int64.toInt ++ m.picture.stack.drop t.pops)).setAll t.writes := by
  obtain ⟨hv, hs⟩ := hm.stack.eq_ofValues
  have hafter := commit_stack_ofValues hs hv hw
  have hstack : (m.commit t).1.stack.values = t.pushed ++ m.stack.values.drop t.pops := by
    rw [hafter, Stack.values_ofValues]
  have hpointer : ∀ r : Register, r.role = .pointer → ∀ w ∈ t.writes, w.1 ≠ r := by
    rintro r hr w hmem rfl
    exact hw.writes_general w hmem hr
  apply Picture.ext
  · rw [Picture.setAll_stack]
    simp only [picture, Picture.withStack, Picture.set, hstack, List.map_append, List.map_drop]
  · funext r
    have hget : (m.commit t).1.picture.registers r = ((m.commit t).1.registers.get r).toInt := rfl
    rw [hget, get_commit hm hw]
    by_cases hip : r = .ip
    · subst hip
      rw [if_pos rfl, Picture.setAll_registers_of_untouched (hpointer .ip rfl)]
      rfl
    · rw [if_neg hip]
      by_cases hsp : r = .sp
      · subst hsp
        rw [if_pos rfl, Picture.setAll_registers_of_untouched (hpointer .sp rfl), Picture.withStack_registers,
          if_pos rfl, toInt_ofInt_wrapWord, Machine.sp, hafter, Stack.sp_ofValues]
        simp only [picture, List.length_append, List.length_map, List.length_drop]
      · rw [if_neg hsp]
        symm
        apply Picture.setAll_registers
        rw [Picture.withStack_registers, if_neg hsp, Picture.set_registers, if_neg hip]
        rfl

theorem picture_commit_still (hm : m.Valid) (hw : t.Within m.stack) (hpush : t.push = none) (hpops : t.pops = 0) :
    (m.commit t).1.picture = (m.picture.set .ip t.nextIP.toInt).setAll t.writes := by
  have hsame : (m.picture.set .ip t.nextIP.toInt).withStack m.picture.stack = m.picture.set .ip t.nextIP.toInt := by
    apply Picture.ext
    · rfl
    · funext r
      rw [Picture.withStack_registers]
      by_cases hr : r = .sp
      · rw [if_pos hr, hr, ← hm.picture_sp]
        rfl
      · rw [if_neg hr]
  rw [picture_commit hm hw, Transaction.pushed, hpush, hpops]
  simp only [Option.map_none, Option.toList_none, List.map_nil, List.nil_append, List.drop_zero, hsame]

theorem length_picture_stack (hm : m.Valid) : (m.picture.stack.length : Int) = m.sp + 1 := by
  have hsp := hm.stack.sp_eq
  simp only [picture, List.length_map, Machine.sp]
  omega

theorem room_passes_iff (hm : m.Valid) :
    (room m.stack.capacity m.picture).passes = true ↔ ¬ m.stack.isFull = true := by
  have hl := length_picture_stack hm
  have hle := hm.stack.sp_le
  simp only [room, decide_eq_true_eq, Stack.isFull, beq_iff_eq]
  simp only [Machine.sp] at hl
  omega

theorem depth_passes_iff (hm : m.Valid) (n : Nat) :
    (depth n m.picture).passes = true ↔ ¬ m.sp < n - 1 := by
  have hl := length_picture_stack hm
  simp only [depth, decide_eq_true_eq]
  omega

theorem picture_top (hm : m.Valid) : m.picture.top = ((m.stack.cell m.sp).getD 0).toInt := by
  rw [Picture.top, Machine.sp, hm.stack.cell_sp]
  simp only [picture]
  cases m.stack.values <;> rfl

theorem picture_second (hm : m.Valid) : m.picture.second = ((m.stack.cell (m.sp - 1)).getD 0).toInt := by
  rw [Picture.second, Machine.sp, hm.stack.cell_below_sp]
  simp only [picture, ← List.map_tail]
  cases m.stack.values.tail <;> rfl

theorem picture_advance (m : Machine) (op : Opcode) :
    m.picture.set .ip (m.ip + Int64.ofNat op.size).toInt = m.picture.advance op.size := by
  have hsize : op.size < 2 ^ 63 := by cases op <;> decide
  rw [Int64.toInt_add, Int64.toInt_ofNat_of_lt hsize]
  rfl

end Machine

namespace InstructionTable

/-- The checks that the operation on the two topmost values makes itself. -/
def arithmeticChecks (f : BinaryOp) (b a : Int) : List Check :=
  match f with
  | .add | .mul | .sub => [representable (f.exact b a)]
  | .div => [⟨a ≠ 0, .divideByZero⟩, representable (f.exact b a)]
  | .less => []

theorem toInt_eq_zero_iff {a : Int64} : a.toInt = 0 ↔ a = 0 := by
  rw [← Int64.toInt_inj]
  rfl

theorem apply_agrees (f : BinaryOp) (b a : Int64) :
    Agrees (arithmeticChecks f b.toInt a.toInt) (f.apply b a) fun c => c.toInt = f.exact b.toInt a.toInt := by
  have hresult : FitsWord (f.exact b.toInt a.toInt) →
      (Int64.ofInt (f.exact b.toInt a.toInt)).toInt = f.exact b.toInt a.toInt := by
    intro hfits
    rw [toInt_ofInt_wrapWord, wrapWord_of_fits hfits]
  -- the last check is whether the exact result fits
  have hlast : Agrees [representable (f.exact b.toInt a.toInt)]
      (if FitsWord (f.exact b.toInt a.toInt) then .ok (Int64.ofInt (f.exact b.toInt a.toInt))
        else .error (.overflow b f.symbol a)) fun c => c.toInt = f.exact b.toInt a.toInt := by
    by_cases hfits : FitsWord (f.exact b.toInt a.toInt)
    · rw [if_pos hfits]
      exact .passed (by simpa [representable] using hfits) (.ok (hresult hfits))
    · rw [if_neg hfits]
      exact .failed (by simpa [representable] using hfits) rfl
  rw [BinaryOp.apply_eq]
  cases f with
  | add | mul | sub =>
    rw [if_neg (by simp)]
    exact hlast
  | div =>
    refine .guarded ?_ rfl fun _ => hlast
    simp [toInt_eq_zero_iff]
  | less =>
    have hfits : FitsWord (BinaryOp.less.exact b.toInt a.toInt) := by
      simp only [BinaryOp.exact]
      split <;> decide
    rw [if_neg (by simp), if_pos hfits]
    exact .ok (hresult hfits)

theorem row_combine (capacity : Nat) (latch : Bool) (p : Picture) (f : BinaryOp) :
    row capacity latch p f.opcode [] =
      ⟨depth 2 p :: arithmeticChecks f p.second p.top,
        if f.isLatched then latched latch p (f.exact p.second p.top) else combined p (f.exact p.second p.top)⟩ := by
  cases f <;> rfl

theorem writable_agrees (r : Register) : Agrees [writable r] r.writable fun r' => r' = r := by
  unfold Register.writable
  refine .guarded ?_ rfl fun _ => .ok rfl
  cases r <;> simp [writable, Register.role]

end InstructionTable

namespace Machine

variable {m : Machine}

/-- Combining the two topmost values. -/
theorem plan_combine_agrees (hm : m.Valid) (latch : Bool) (f : BinaryOp) :
    Agrees (row m.stack.capacity latch m.picture f.opcode []).checks (m.plan latch (.combine f)) fun t =>
      t.Within m.stack → (m.commit t).1.picture = (row m.stack.capacity latch m.picture f.opcode []).result := by
  have htop := picture_top hm
  have hsecond := picture_second hm
  rw [row_combine]
  refine .guarded (depth_passes_iff hm 2) rfl fun _ => ?_
  have happly := apply_agrees f ((m.stack.cell (m.sp - 1)).getD 0) ((m.stack.cell m.sp).getD 0)
  rw [← htop, ← hsecond] at happly
  rw [← List.append_nil (arithmeticChecks _ _ _)]
  refine .bind happly fun c hc => ?_
  have hbase : (m.picture.set .ip (m.ip + Int64.ofNat f.opcode.size).toInt).withStack
      (c.toInt :: m.picture.stack.drop 2) = combined m.picture (f.exact m.picture.second m.picture.top) := by
    have hsize : f.opcode.size = 1 := by cases f <;> rfl
    rw [picture_advance, hsize, hc]
    rfl
  dsimp only
  cases hl : f.isLatched with
  | false =>
    refine .ok fun hw => ?_
    rw [picture_commit hm hw]
    exact hbase
  | true =>
    refine .ok fun hw => ?_
    rw [picture_commit hm hw]
    cases latch with
    | false => exact hbase
    | true =>
      let writes : List (Register × Int64) :=
        [(.a, (m.stack.cell m.sp).getD 0), (.b, (m.stack.cell (m.sp - 1)).getD 0), (.c, c)]
      refine (congrArg (fun p : Picture => p.setAll writes) hbase).trans ?_
      simp only [writes, if_true, latched, Picture.setAll_cons, Picture.setAll_nil, hc, htop, hsecond]

theorem row_branch (m : Machine) (latch : Bool) (c : Condition) (source : Register) (wanted target : Int64) :
    row m.stack.capacity latch m.picture c.opcode
        [.register source, .number wanted.toInt, .number target.toInt] =
      branch m.picture (c.holds (m.registers.get source) wanted) target.toInt := by
  have hiff : m.picture.registers source = wanted.toInt ↔ m.registers.get source = wanted := Int64.toInt_inj
  cases c with
  | equal => simp only [Condition.opcode, row, Condition.holds, hiff, beq_eq_decide]
  | different => simp only [Condition.opcode, row, Condition.holds, ne_eq, hiff, bne, beq_eq_decide, decide_not]

/-- Planning makes the checks of the table, and carrying out what was planned leaves what the table says. -/
theorem plan_agrees (hm : m.Valid) (latch : Bool) (action : Action) :
    Agrees (row m.stack.capacity latch m.picture action.opcode (arguments action)).checks (m.plan latch action)
      fun t => t.Within m.stack →
        (m.commit t).1.picture = (row m.stack.capacity latch m.picture action.opcode (arguments action)).result := by
  cases action with
  | halt =>
    refine .ok fun hw => ?_
    rw [picture_commit_still hm hw rfl rfl]
    apply Picture.ext
    · rfl
    · funext r
      by_cases hr : r = .ip
      · subst hr; rfl
      · exact if_neg hr
  | nothing | report source =>
    refine .ok fun hw => ?_
    rw [picture_commit_still hm hw rfl rfl]
    exact picture_advance m _
  | push v | load source =>
    refine .guarded (room_passes_iff hm) rfl fun _ => .ok fun hw => ?_
    rw [picture_commit hm hw, picture_advance]
    rfl
  | drop =>
    refine .guarded (depth_passes_iff hm 1) rfl fun _ => .ok fun hw => ?_
    rw [picture_commit hm hw, picture_advance]
    rfl
  | combine f => exact plan_combine_agrees hm latch f
  | copy source target | assign target v =>
    refine .bind (writable_agrees target) fun r hr => .ok fun hw => ?_
    subst hr
    rw [picture_commit_still hm hw rfl rfl, picture_advance]
    rfl
  | branch c source wanted target =>
    have htarget : decide (0 ≤ target.toInt) = true ↔ ¬ target < 0 := by
      rw [Int64.lt_iff_toInt_lt, Int64.toInt_zero, decide_eq_true_eq]
      omega
    have hrow := row_branch m latch c source wanted target
    simp only [Action.opcode, arguments, hrow]
    refine .guarded htarget rfl fun _ => ?_
    cases hh : c.holds (m.registers.get source) wanted with
    | true =>
      refine .ok fun hw => ?_
      rw [picture_commit_still hm hw rfl rfl]
      rfl
    | false =>
      refine .ok fun hw => ?_
      have hsize : c.opcode.size = 4 := by cases c <;> rfl
      rw [picture_commit_still hm hw rfl rfl, picture_advance]
      simp only [Action.opcode, hsize]
      rfl
  | store target =>
    refine .guarded (depth_passes_iff hm 1) rfl fun _ => ?_
    refine .bind (writable_agrees target) fun r hr => .ok fun hw => ?_
    subst hr
    rw [picture_commit_still hm hw rfl rfl, picture_advance]
    exact congrArg ((m.picture.advance 2).set r) (picture_top hm).symm

end Machine

namespace InstructionTable

/-- Reading operands and planning make all the checks of an instruction in the order of the table. -/
theorem instruction_agrees {m : Machine} (hm : m.Valid) (latch : Bool) (op : Opcode) (operands : List Operand) :
    Agrees
      (operandChecks op.definition.operands operands ++
        (row m.stack.capacity latch m.picture op (operands.filterMap argument?)).checks)
      (Action.ofOperands op operands >>= m.plan latch)
      fun t => t.Within m.stack →
        (m.commit t).1.picture = (row m.stack.capacity latch m.picture op (operands.filterMap argument?)).result := by
  apply (ofOperands_agrees op operands).bind
  rintro action ⟨hop, harguments⟩
  rw [← hop, ← harguments]
  exact Machine.plan_agrees hm latch action

/-- An instruction that succeeds is an action whose checks pass. -/
theorem outcome_eq_ok {capacity : Nat} {latch : Bool} {p q : Picture} {code : UInt8} {operands : List Operand}
    (h : outcome capacity latch p code operands = .ok q) :
    ∃ action : Action, Opcode.ofCode? code = some action.opcode ∧
      firstViolation (row capacity latch p action.opcode (arguments action)).checks = none ∧
      (row capacity latch p action.opcode (arguments action)).result = q := by
  unfold outcome at h
  split at h
  next => cases h
  next op hop =>
    dsimp only at h
    split at h
    next => cases h
    next hpassed =>
      rw [firstViolation_append, Option.or_eq_none_iff] at hpassed
      have hread := ofOperands_agrees op operands
      rw [Agrees, hpassed.1] at hread
      obtain ⟨action, _, rfl, harguments⟩ := hread
      rw [← harguments] at hpassed h
      exact ⟨action, hop, hpassed.2, Except.ok.inj h⟩

theorem firstViolation_singleton (check : Check) : firstViolation [check] = none ↔ check.passes = true := by
  cases hp : check.passes <;> simp [firstViolation, hp]

/-- Passing on and writing to a writable register. -/
theorem set_protects {p : Picture} {target : Register} (hw : (writable target).passes = true) (bytes : Nat) (v : Int) :
    ((p.advance bytes).set target v).registers .sp = p.registers .sp ∧
      ((p.advance bytes).set target v).registers .ip = wrapWord (p.registers .ip + bytes) := by
  obtain ⟨hip, hsp⟩ : target ≠ .ip ∧ target ≠ .sp := by simpa [writable] using hw
  simp [Picture.set, Picture.advance, hip.symm, hsp.symm]

/-- An instruction that writes to a register of its choice leaves SP alone and moves IP by its size only. -/
theorem outcome_protects {capacity : Nat} {latch : Bool} {p q : Picture} {op : Opcode} {operands : List Operand}
    (hop : op ∈ [Opcode.mov, .set, .gpt]) (h : outcome capacity latch p op.code operands = .ok q) :
    q.registers .sp = p.registers .sp ∧ q.registers .ip = wrapWord (p.registers .ip + op.size) := by
  obtain ⟨action, haction, hpassed, rfl⟩ := outcome_eq_ok h
  obtain rfl : op = action.opcode := by
    rw [Opcode.ofCode?_code] at haction
    exact Option.some.inj haction
  cases action with
  | copy source target =>
    simp only [Action.opcode, arguments, row, firstViolation_singleton] at hpassed
    exact set_protects hpassed 3 _
  | assign target v =>
    simp only [Action.opcode, arguments, row, firstViolation_singleton] at hpassed
    exact set_protects hpassed 3 _
  | store target =>
    have hwritable : (writable target).passes = true := by
      simp only [Action.opcode, arguments, row, firstViolation] at hpassed
      split at hpassed
      next => simpa using hpassed
      next => cases hpassed
    exact set_protects hwritable 2 _
  | halt | nothing | drop | push _ | report _ | load _ => simp [Action.opcode] at hop
  | combine f => cases f <;> simp [Action.opcode, BinaryOp.opcode] at hop
  | branch c _ _ _ => cases c <;> simp [Action.opcode, Condition.opcode] at hop

end InstructionTable

namespace Engine

variable {e : Engine} {code : UInt8} {operands : List Operand}

theorem plan_of_ofCode? (e : Engine) (operands : List Operand) {op : Opcode} (hc : Opcode.ofCode? code = some op) :
    (e.plan code operands).2 =
      Cause.underOpcode op (Action.ofOperands op operands >>= e.machine.plan e.latch) := by
  simp only [Engine.plan, Opcode.ofByte, hc]
  cases Action.ofOperands op operands with
  | error cause => rfl
  | ok action => rfl

/-- A rejected instruction, once observers that only listen were told. -/
theorem dispatch_settled_error {error : Error} (free : e.busy = false) (idle : e.phase = .idle)
    (hp : (e.plan code operands).2 = .error error) :
    (e.dispatch code operands).settled.reply = .error error ∧
      (e.dispatch code operands).settled.engine = { e with stats := e.stats.map Stats.reject } := by
  have hr : e.refusal? (Opcode.nameOfCode code) = none := refusal?_eq_none_iff.mpr ⟨free, idle⟩
  obtain ⟨log, hplan⟩ : ∃ log, e.plan code operands = (log, .error error) := ⟨_, Prod.ext rfl hp⟩
  have hnot : ¬ e.busy = true := by simp [free]
  simp only [dispatch, hr, hplan, reject_eq, if_neg hnot, Effect.after, Effect.settled]
  exact ⟨trivial, settle_afterRejection free⟩

/-- An instruction that was carried out, once observers that only listen were told. -/
theorem dispatch_settled_ok {t : Transaction} (free : e.busy = false) (idle : e.phase = .idle)
    (hp : (e.plan code operands).2 = .ok t) :
    (e.dispatch code operands).settled.reply = .ok (e.machine.commit t).2 ∧
      (e.dispatch code operands).settled.engine =
        { e with machine := (e.machine.commit t).1, stats := e.stats.map (·.commit t.op) } := by
  have hr : e.refusal? (Opcode.nameOfCode code) = none := refusal?_eq_none_iff.mpr ⟨free, idle⟩
  obtain ⟨log, hplan⟩ : ∃ log, e.plan code operands = (log, .ok t) := ⟨_, Prod.ext rfl hp⟩
  simp only [dispatch, hr, hplan, Engine.apply, Effect.after, Effect.settled]
  exact ⟨trivial, settle_afterTransaction free t⟩

/-- A mnemonic that names no opcode, once observers that only listen were told. -/
theorem unknown_settled {α : Type} (free : e.busy = false) (idle : e.phase = .idle) (mnemonic : Bytes) :
    (e.unknown mnemonic : Effect α).settled.reply = .error ⟨[], .unknownMnemonic mnemonic⟩ ∧
      (e.unknown mnemonic : Effect α).settled.engine = { e with stats := e.stats.map Stats.reject } := by
  have hr : e.refusal? mnemonic = none := refusal?_eq_none_iff.mpr ⟨free, idle⟩
  have hnot : ¬ e.busy = true := by simp [free]
  simp only [unknown, hr, reject_eq, if_neg hnot, Effect.settled]
  exact ⟨trivial, settle_afterRejection free⟩

/-- No notice is under way and nothing is announced. -/
structure AtRest (e : Engine) : Prop where
  free : e.busy = false
  idle : e.phase = .idle
  unannounced : e.pending = none

theorem atRest_ofOptions (o : Options) : (ofOptions o).AtRest := ⟨rfl, rfl, rfl⟩

theorem AtRest.execute (rest : e.AtRest) (mnemonic : Bytes) (operands : List Operand) :
    (e.execute mnemonic operands).settled.engine.AtRest := by
  obtain ⟨free, idle, unannounced⟩ := rest
  unfold Engine.execute
  cases Opcode.ofName? mnemonic with
  | none =>
    obtain ⟨-, hengine⟩ := unknown_settled (α := Result) free idle mnemonic
    rw [hengine]
    exact ⟨free, idle, unannounced⟩
  | some op =>
    dsimp only
    cases hp : (e.plan op.code operands).2 with
    | error error =>
      rw [(dispatch_settled_error free idle hp).2]
      exact ⟨free, idle, unannounced⟩
    | ok t =>
      rw [(dispatch_settled_ok free idle hp).2]
      exact ⟨free, idle, unannounced⟩

end Engine

/-- A finished instruction did what the table says: it failed with a kind and only the counters moved, or it succeeded
and nothing but the machine and the counters moved, and the machine shows what is left. -/
def Outcome.Follows (done : Outcome Result) (e : Engine) : Except Kind Picture → Prop
  | .error kind =>
    (∃ error, done.reply = .error error ∧ error.kind = kind) ∧
      done.engine = { e with stats := done.engine.stats }
  | .ok p =>
    (∃ result, done.reply = .ok result) ∧
      done.engine = { e with machine := done.engine.machine, stats := done.engine.stats } ∧
      done.engine.machine.picture = p

theorem Engine.Valid.dispatch_follows {o : Options} {e : Engine} (hv : e.Valid o) (free : e.busy = false)
    (idle : e.phase = .idle) (code : UInt8) (operands : List Operand) :
    (e.dispatch code operands).settled.Follows e
      (outcome (Stack.capacityFor o.capacity) o.latch e.machine.picture code operands) := by
  have hcapacity : e.machine.stack.capacity = Stack.capacityFor o.capacity := hv.capacity_eq
  rw [← hcapacity, ← hv.latch_eq]
  unfold outcome
  cases hc : Opcode.ofCode? code with
  | none =>
    have hp : (e.plan code operands).2 = .error ⟨[], .unknownOpcode code⟩ := by
      simp only [Engine.plan, Opcode.ofByte, hc]
    obtain ⟨hreply, hengine⟩ := Engine.dispatch_settled_error free idle hp
    exact ⟨⟨_, hreply, rfl⟩, by rw [hengine]⟩
  | some op =>
    have hplan := Engine.plan_of_ofCode? e operands hc
    have hagrees := instruction_agrees hv.machine e.latch op operands
    rw [Agrees] at hagrees
    dsimp only
    cases hviolation : firstViolation (operandChecks op.definition.operands operands ++
        (row e.machine.stack.capacity e.latch e.machine.picture op (operands.filterMap argument?)).checks) with
    | some kind =>
      rw [hviolation] at hagrees
      obtain ⟨cause, hcause, hkind⟩ := hagrees
      rw [hcause] at hplan
      obtain ⟨hreply, hengine⟩ := Engine.dispatch_settled_error free idle hplan
      exact ⟨⟨_, hreply, hkind⟩, by rw [hengine]⟩
    | none =>
      rw [hviolation] at hagrees
      obtain ⟨t, ht, hpicture⟩ := hagrees
      rw [ht] at hplan
      obtain ⟨hreply, hengine⟩ := Engine.dispatch_settled_ok free idle hplan
      refine ⟨⟨_, hreply⟩, by rw [hengine], ?_⟩
      rw [hengine]
      exact hpicture (Engine.plan_within hv.machine hplan)

/-- In every reachable state in which the engine takes work, an instruction succeeds or fails as the table says. Those
that write to a register of their choice leave SP alone and move IP by their size only. -/
theorem dispatch_follows_table {o : Options} {e : Engine} (hr : e.Reachable o) (free : e.busy = false)
    (idle : e.phase = .idle) (code : UInt8) (operands : List Operand) :
    e.machine.picture.stack.length ≤ Stack.capacityFor o.capacity ∧
    (e.dispatch code operands).settled.Follows e
      (outcome (Stack.capacityFor o.capacity) o.latch e.machine.picture code operands) ∧
    ∀ op ∈ [Opcode.mov, .set, .gpt], code = op.code → ∀ p,
      outcome (Stack.capacityFor o.capacity) o.latch e.machine.picture code operands = .ok p →
        p.registers .sp = e.machine.picture.registers .sp ∧
        p.registers .ip = wrapWord (e.machine.picture.registers .ip + op.size) := by
  have hv := hr.valid
  refine ⟨?_, hv.dispatch_follows free idle code operands, ?_⟩
  · have hlength := Machine.length_picture_stack hv.machine
    have hle := hv.machine.stack.sp_le
    have hcapacity : e.machine.stack.capacity = Stack.capacityFor o.capacity := hv.capacity_eq
    simp only [Machine.sp] at hlength
    omega
  · rintro op hop rfl p hp
    exact outcome_protects hop hp

/-- A full stack with a zero on top: the division fails, and not for want of room. -/
theorem dispatch_follows_table_full :
    ∃ e : Engine, e.Reachable { capacity := 2, latch := true } ∧ e.busy = false ∧ e.phase = .idle ∧
      e.machine.picture.stack = [0, -3] ∧
      (e.dispatch Opcode.div.code []).settled.Follows e (.error .divideByZero) := by
  obtain ⟨e, hr, free, idle, hstack⟩ : ∃ e : Engine, e.Reachable { capacity := 2, latch := true } ∧ e.busy = false ∧
      e.phase = .idle ∧ e.machine.picture.stack = [0, -3] :=
    ⟨_, ⟨_, [.call (.dispatch Opcode.psh.code [.imm (-3)]), .settle, .call (.dispatch Opcode.psh.code [.imm 0]), .settle],
      rfl⟩, rfl, rfl, by decide +kernel⟩
  have houtcome : outcome (Stack.capacityFor 2) true e.machine.picture Opcode.div.code [] = .error .divideByZero := by
    cases hpicture : e.machine.picture with
    | mk stack registers =>
      rw [hpicture] at hstack
      cases hstack
      rfl
  have hfollows := (dispatch_follows_table hr free idle Opcode.div.code []).2.1
  rw [houtcome] at hfollows
  exact ⟨e, hr, free, idle, hstack, hfollows⟩

end StackMachine
