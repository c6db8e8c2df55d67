import Mathlib.Algebra.Group.Int.Defs
import Mathlib.Data.List.Induction
import StackMachine.Proofs.ExactArithmetic
import StackMachine.Proofs.Invariant

namespace StackMachine

/-- The place that comes after an action, as an integer: an instruction has one byte and one more for each operand. -/
def Action.destination (m : Machine) : Action → Int
  | .halt => m.ip.toInt
  | .branch c source wanted target =>
    if c.holds (m.registers.get source) wanted then target.toInt
    else m.ip.toInt + 1 + c.opcode.definition.operands.length
  | action => m.ip.toInt + 1 + action.opcode.definition.operands.length

/-- The pointer at a place that is not below `-2 ^ 63`. -/
def pointerAt (place : Int) : Int := if place < 2 ^ 63 then place else place - 2 ^ 64

theorem pointerAt_word (v : Int64) : pointerAt v.toInt = v.toInt := if_pos v.toInt_lt

theorem Opcode.toInt_size (op : Opcode) :
    (Int64.ofNat op.size).toInt = 1 + op.definition.operands.length ∧ op.definition.operands.length ≤ 3 := by
  cases op <;> decide

theorem toInt_add_size (ip : Int64) (op : Opcode) :
    (ip + Int64.ofNat op.size).toInt = pointerAt (ip.toInt + 1 + op.definition.operands.length) := by
  obtain ⟨hsize, hbound⟩ := op.toInt_size
  have hle := ip.le_toInt
  have hlt := ip.toInt_lt
  rw [Int64.toInt_add, hsize, ← Int.add_assoc]
  generalize op.definition.operands.length = n at hbound
  unfold pointerAt
  split
  next hfits => exact wrapWord_of_fits ⟨by omega, hfits⟩
  next hover =>
    -- at most four past the last word, so one turn around the words brings it back
    have hturn : ip.toInt + 1 + n = (ip.toInt + 1 + n - 2 ^ 64) + (2 ^ 64 : Nat) := by omega
    rw [hturn, Int.add_bmod_right, ← hturn]
    exact wrapWord_of_fits ⟨by omega, by omega⟩

namespace Machine

variable {m : Machine} {latch : Bool} {action : Action} {t : Transaction}

theorem toInt_nextIP (m : Machine) (action : Action) :
    (action.nextIP m).toInt = pointerAt (action.destination m) := by
  cases action with
  | halt => exact (pointerAt_word _).symm
  | branch c source wanted target =>
    simp only [Action.nextIP, Action.destination]
    split
    next => exact (pointerAt_word _).symm
    next => exact toInt_add_size m.ip c.opcode
  | nothing | push | drop | combine | copy | assign | report | load | store => exact toInt_add_size m.ip _

/-- Only a pointer that is negative already leads to a negative place. -/
theorem destination_nonneg (hp : m.plan latch action = .ok t) (hip : 0 ≤ m.ip.toInt) : 0 ≤ action.destination m := by
  cases action with
  | halt => exact hip
  | branch c source wanted target =>
    have htarget := plan_target hp
    simp only [Action.destination]
    split
    next => exact htarget
    next => omega
  | nothing | push | drop | combine | copy | assign | report | load | store =>
    simp only [Action.destination]
    omega

end Machine

/-- The action that a command carries out after a history: the one it asks for itself, or the one that an announcement
of the history has left to be committed. -/
inductive CarriesOut (moves : List Move) (e : Engine) : Command → Action → Prop
  | now {c : Command} {code : UInt8} {op : Opcode} {operands : List Operand} {action : Action}
      (immediate : c.isImmediate = true) (asked : e.instruction? c = some (code, operands))
      (named : Opcode.ofCode? code = some op) (fits : Action.ofOperands op operands = .ok action) :
      CarriesOut moves e c action
  | announced {before later : List Move} {mnemonic : Bytes} {op : Opcode} {operands : List Operand} {action : Action}
      {t : Transaction} (history : moves = before ++ .call (.announce mnemonic operands) :: later)
      (named : Opcode.ofName? mnemonic = some op) (fits : Action.ofOperands op operands = .ok action)
      (pending : e.pending = some t) (planned : e.machine.plan e.latch action = .ok t) :
      CarriesOut moves e .commit action

namespace Moment

variable {o : Options} {moves : List Move} {c : Command} {result : Result}

/-- What a committed result tells of: the plan of the action that its command carries out. -/
theorem exists_carriesOut {e : Engine} (he : ((start o).after moves).engine = e)
    (h : (e.begin c).reply = .ok (.committed result)) :
    ∃ action t, CarriesOut moves e c action ∧ e.machine.plan e.latch action = .ok t ∧
      result = (e.machine.commit t).2 ∧ (e.begin c).engine.machine = (e.machine.commit t).1 := by
  have hb := e.begin_begins c
  generalize e.begin c = effect at h hb
  cases hb with
  | refused | nothing | rejected | announced => cases h
  | reset => cases h
  | executed _ _ immediate asked planned =>
    cases h
    obtain ⟨op, action, named, fits, hplan⟩ := Engine.plan_eq_ok planned
    exact ⟨action, _, .now immediate asked named fits, hplan, rfl, rfl⟩
  | committed _ announced =>
    cases h
    have hpending := announced
    rw [← he] at hpending
    obtain ⟨before, mnemonic, operands, later, op, history, named, planned⟩ := pending_after hpending
    rw [he] at planned
    obtain ⟨op', action, hcode, fits, hplan⟩ := Engine.plan_eq_ok planned
    rw [Opcode.ofCode?_code] at hcode
    cases hcode
    exact ⟨action, _, .announced history named fits announced hplan, hplan, rfl, rfl⟩

/-- One move leaves the pointer where it is, puts it back to zero, or carries out an instruction. -/
theorem ip_next (m : Moment) (move : Move) :
    (m.next move).engine.ip = m.engine.ip ∨ (m.next move).engine.ip = 0 ∨
      ∃ c result, move = .call c ∧ (m.engine.begin c).reply = .ok (.committed result) := by
  cases move with
  | call c =>
    have hb := m.engine.begin_begins c
    have hnext : (m.next (.call c)).engine = (m.engine.begin c).engine := rfl
    rw [hnext]
    generalize heffect : m.engine.begin c = effect at hb ⊢
    cases hb with
    | refused | nothing | rejected | announced => exact .inl rfl
    | reset => exact .inr (.inl (RegisterFile.get_set RegisterFile.zero .sp .ip (-1)))
    | executed => exact .inr (.inr ⟨_, _, rfl, by rw [heffect]⟩)
    | committed => exact .inr (.inr ⟨_, _, rfl, by rw [heffect]⟩)
  | spend =>
    rw [next_spend_engine]
    exact .inl rfl
  | settle =>
    cases hn : m.notices with
    | nil => rw [next_settle_nil hn]; exact .inl rfl
    | cons notice rest =>
      rw [next_settle_cons hn]
      simp only [Engine.settle]
      split
      next => exact .inl rfl
      next => exact .inl rfl

/-- Some command of the history carried out an instruction that leads beyond the words. -/
def LedBeyond (o : Options) (moves : List Move) : Prop :=
  ∃ before c later action result, moves = before ++ .call c :: later ∧
    (((start o).after before).engine.begin c).reply = .ok (.committed result) ∧
    CarriesOut before ((start o).after before).engine c action ∧
    2 ^ 63 ≤ action.destination ((start o).after before).engine.machine

theorem LedBeyond.append (h : LedBeyond o moves) (move : Move) : LedBeyond o (moves ++ [move]) := by
  obtain ⟨before, c, later, action, result, rfl, hreply, hcarries, hover⟩ := h
  exact ⟨before, c, later ++ [move], action, result, by simp, hreply, hcarries, hover⟩

theorem ledBeyond_of_negative (hneg : ((start o).after moves).engine.ip.toInt < 0) : LedBeyond o moves := by
  -- on the last move: it brought the pointer below zero itself, or found it there
  induction moves using List.reverseRecOn with
  | nil =>
    have hzero : ((start o).after []).engine.ip = 0 := RegisterFile.get_set RegisterFile.zero .sp .ip (-1)
    rw [hzero] at hneg
    exact absurd hneg (by decide)
  | append_singleton moves move ih =>
    rw [after_append, after_cons, after_nil] at hneg
    rcases ip_next ((start o).after moves) move with hkept | hzero | ⟨c, result, rfl, hreply⟩
    · rw [hkept] at hneg
      exact (ih hneg).append move
    · rw [hzero] at hneg
      exact absurd hneg (by decide)
    · obtain ⟨action, t, hcarries, hplan, _, hmachine⟩ := exists_carriesOut rfl hreply
      have hip : (((start o).after moves).next (.call c)).engine.ip =
          action.nextIP ((start o).after moves).engine.machine := by
        rw [← (Machine.plan_course hplan).2.2, ← Machine.ip_commit, ← hmachine]
        rfl
      rw [hip, Machine.toInt_nextIP] at hneg
      by_cases hover : 2 ^ 63 ≤ action.destination ((start o).after moves).engine.machine
      · exact ⟨moves, c, [], action, result, rfl, hreply, hcarries, hover⟩
      · rw [pointerAt, if_pos (Int.not_le.mp hover)] at hneg
        have hbefore : ((start o).after moves).engine.ip.toInt < 0 := by
          refine Int.not_le.mp fun hip => ?_
          exact absurd (Machine.destination_nonneg hplan hip) (Int.not_le.mpr hneg)
        exact (ih hbefore).append _

end Moment

/-- Wherever an instruction is carried out, the pointer moves to the place that comes after it, if that is below
2 ^ 63, and a whole word below that place otherwise. Unless some instruction has led there, the pointer is not
negative. -/
theorem pointer_follows_instructions (o : Options) (moves : List Move) :
    let e := ((Moment.start o).after moves).engine
    (∀ c result, (e.begin c).reply = .ok (.committed result) →
      ∃ action, CarriesOut moves e c action ∧ result.op = action.opcode ∧ result.ip = (e.begin c).engine.ip ∧
        result.ip.toInt =
          (if action.destination e.machine < 2 ^ 63 then action.destination e.machine
            else action.destination e.machine - 2 ^ 64) ∧
        (result.ip.toInt = action.destination e.machine ↔ action.destination e.machine < 2 ^ 63) ∧
        (∀ condition source wanted target, action = .branch condition source wanted target → 0 ≤ target.toInt)) ∧
    (e.ip.toInt < 0 → Moment.LedBeyond o moves) := by
  refine ⟨?_, Moment.ledBeyond_of_negative⟩
  intro c result hreply
  obtain ⟨action, t, hcarries, hplan, rfl, hmachine⟩ := Moment.exists_carriesOut rfl hreply
  obtain ⟨hop, _, hnext⟩ := Machine.plan_course hplan
  have hplace := Machine.toInt_nextIP ((Moment.start o).after moves).engine.machine action
  rw [← hnext] at hplace
  refine ⟨action, hcarries, hop, ?_, hplace, ?_, ?_⟩
  · rw [Engine.ip, hmachine, Machine.ip_commit]
    rfl
  · have hlt := t.nextIP.toInt_lt
    show t.nextIP.toInt = _ ↔ _
    constructor
    · intro hsame
      omega
    · intro hfits
      rw [hplace, pointerAt, if_pos hfits]
  · rintro condition source wanted target rfl
    exact Machine.plan_target hplan

/-- A branch to the last word, which is told of and done with, then an instruction without operands. -/
def overTheTop : List Move :=
  [.call (.execute (utf8 "IF") [.reg (utf8 "A"), .imm 0, .imm Int64.maxValue]), .settle,
    .call (.execute (utf8 "NOP") []), .settle]

/-- Two instructions from the start the pointer is negative, and the third is counted from there. -/
theorem pointer_follows_instructions_beyond :
    ∃ e, e = ((Moment.start {}).after overTheTop).engine ∧ e.ip.toInt = -2 ^ 63 ∧ Moment.LedBeyond {} overTheTop ∧
      ∃ action, CarriesOut overTheTop e (.dispatch Opcode.nop.code []) action ∧ Opcode.nop = action.opcode ∧
        Int64.minValue + 1 = (e.begin (.dispatch Opcode.nop.code [])).engine.ip := by
  refine ⟨_, rfl, by decide +kernel, ?_, ?_⟩
  · exact (pointer_follows_instructions {} overTheTop).2 (by decide +kernel)
  · obtain ⟨action, hcarries, hop, hip, _⟩ := (pointer_follows_instructions {} overTheTop).1
      (.dispatch Opcode.nop.code []) ⟨.nop, [], [], Int64.minValue + 1, false, utf8 "no operation"⟩ (by decide +kernel)
    exact ⟨action, hcarries, hop, hip⟩

/-- After a branch to the last word, an instruction of one byte moves the pointer to the least one. -/
theorem pointer_wraps :
    ∃ e, e = ((Moment.start {}).after (overTheTop.take 2)).engine ∧ e.busy = false ∧ e.ip.toInt = 2 ^ 63 - 1 ∧
      Action.nothing.destination e.machine = 2 ^ 63 ∧
      (e.begin (.execute (utf8 "NOP") [])).reply =
        .ok (.committed ⟨.nop, [], [], Int64.minValue, false, utf8 "no operation"⟩) ∧
      (e.begin (.execute (utf8 "NOP") [])).engine.ip.toInt = -2 ^ 63 := by
  refine ⟨_, rfl, ?_⟩
  decide +kernel

end StackMachine
