import StackMachine.Proofs.StackView

namespace StackMachine

theorem Register.ofIndex?_index (r : Register) : Register.ofIndex? r.index = some r := by
  cases r <;> rfl

theorem Register.index_injective {r r' : Register} (h : r.index = r'.index) : r = r' := by
  have hr := Register.ofIndex?_index r
  rw [h, Register.ofIndex?_index r'] at hr
  exact (Option.some.inj hr).symm

namespace RegisterFile

theorem get_set (file : RegisterFile) (r r' : Register) (v : Int64) :
    (file.set r v).get r' = if r = r' then v else file.get r' := by
  by_cases h : r = r'
  · subst h
    simp [get, set]
  · have hi : (r.index : Nat) ≠ r'.index := fun he => h (Register.index_injective (Fin.ext he))
    simp [get, set, h, hi]

theorem set_get (file : RegisterFile) (r : Register) : file.set r (file.get r) = file := by
  simp [set, get]

@[simp] theorem setAll_nil (file : RegisterFile) : file.setAll [] = file := rfl

@[simp] theorem setAll_cons (file : RegisterFile) (w : Register × Int64) (writes : List (Register × Int64)) :
    file.setAll (w :: writes) = (file.set w.1 w.2).setAll writes := rfl

theorem setAll_append (file : RegisterFile) (first second : List (Register × Int64)) :
    file.setAll (first ++ second) = (file.setAll first).setAll second := by
  simp [setAll, List.foldl_append]

theorem get_setAll_of_untouched {file : RegisterFile} {writes : List (Register × Int64)} {r : Register}
    (h : ∀ w ∈ writes, w.1 ≠ r) : (file.setAll writes).get r = file.get r := by
  induction writes generalizing file with
  | nil => rfl
  | cons w writes ih =>
    have hw : w.1 ≠ r := h w (by simp)
    rw [setAll_cons, ih (fun x hx => h x (List.mem_cons_of_mem w hx)), get_set, if_neg hw]

end RegisterFile

/-- The stack is valid and the register SP holds its pointer. -/
structure Machine.Valid (m : Machine) : Prop where
  stack : m.stack.Valid
  spRegister : m.registers.get .sp = Int64.ofInt m.sp

namespace Transaction

def pushed (t : Transaction) : List Int64 := (t.push.map Prod.fst).toList

/-- Every pop and push that carries out the transaction on a stack succeeds. -/
structure Fits (t : Transaction) (s : Stack) : Prop where
  pop_ok : ∀ i, i < t.pops → ∃ v rest, (s.dropTops i).pop = .ok (v, rest)
  push_ok : ∀ v hint, t.push = some (v, hint) → ∃ pushed, (s.dropTops t.pops).push v = .ok pushed

/-- What planning makes sure of: there are values to pop, there is room for a push that replaces nothing, and the
registers written are not the engine's own. -/
structure Within (t : Transaction) (s : Stack) : Prop where
  pops_le : (t.pops : Int) ≤ s.size
  room : t.push.isSome → t.pops = 0 → s.isFull = false
  writes_general : ∀ w ∈ t.writes, w.1.role ≠ .pointer

variable {t : Transaction} {s : Stack} {capacity : Nat} {vs : List Int64}

theorem Within.pops_le_length (hw : t.Within (.ofValues capacity vs)) : t.pops ≤ vs.length := by
  have hp := hw.pops_le
  simp only [Stack.size, Stack.sp_ofValues] at hp
  omega

theorem Within.length_drop_lt (hw : t.Within (.ofValues capacity vs)) (hv : vs.length ≤ capacity)
    (hp : t.push.isSome) : (vs.drop t.pops).length < capacity := by
  have hl := hw.pops_le_length
  rw [List.length_drop]
  by_cases hz : t.pops = 0
  · have hf : ¬ vs.length = capacity := by
      intro hfull
      rw [← Stack.isFull_ofValues hv] at hfull
      rw [hw.room hp hz] at hfull
      exact Bool.false_ne_true hfull
    omega
  · omega

theorem Within.fits (hw : t.Within s) (hs : s.Valid) : t.Fits s := by
  obtain ⟨vs, hv, he⟩ := hs.exists_values
  generalize s.capacity = capacity at hv he
  subst he
  have hl := hw.pops_le_length
  constructor
  · intro i hi
    rw [Stack.dropTops_ofValues i hv (by omega)]
    have hne : vs.drop i ≠ [] := by
      intro hnil
      rw [List.drop_eq_nil_iff] at hnil
      omega
    obtain ⟨a, rest, hd⟩ := List.exists_cons_of_ne_nil hne
    have hfit : (a :: rest).length ≤ capacity := by rw [← hd, List.length_drop]; omega
    exact ⟨a, .ofValues capacity rest, by rw [hd, Stack.pop_ofValues_cons hfit]⟩
  · intro v hint hp
    rw [Stack.dropTops_ofValues t.pops hv hl]
    exact ⟨_, Stack.push_ofValues v (hw.length_drop_lt hv (by rw [hp]; rfl))⟩

/-- On the list of values, the transaction drops the popped ones and puts the pushed one in front. -/
theorem Within.stackAfter_eq (hw : t.Within (.ofValues capacity vs)) (hv : vs.length ≤ capacity) :
    t.stackAfter (.ofValues capacity vs) = .ofValues capacity (t.pushed ++ vs.drop t.pops) := by
  have hd := Stack.dropTops_ofValues t.pops hv hw.pops_le_length
  unfold stackAfter pushed
  split
  next hp => rw [hd, hp]; rfl
  next v hint hp =>
    rw [hd, Stack.putTop_ofValues v (hw.length_drop_lt hv (by rw [hp]; rfl)), hp]
    rfl

theorem Within.length_stackAfter_le (hw : t.Within (.ofValues capacity vs)) (hv : vs.length ≤ capacity) :
    (t.pushed ++ vs.drop t.pops).length ≤ capacity := by
  cases hp : t.push with
  | none =>
    simp only [pushed, hp, Option.map_none, Option.toList_none, List.nil_append, List.length_drop]
    omega
  | some p =>
    have hl := hw.length_drop_lt hv (by rw [hp]; rfl)
    simp only [pushed, hp, Option.map_some, Option.toList_some, List.singleton_append, List.length_cons]
    omega

end Transaction

theorem Register.role_of_writable {r r' : Register} (h : r.writable = .ok r') : r' = r ∧ r.role ≠ .pointer := by
  unfold Register.writable at h
  split at h
  next => cases h
  next hr => exact ⟨(Except.ok.inj h).symm, hr⟩

/-- The place of the instruction that comes after an action. -/
def Action.nextIP (m : Machine) : Action → Int64
  | .halt => m.ip
  | .branch c source wanted target =>
    if c.holds (m.registers.get source) wanted then target else m.ip + Int64.ofNat c.opcode.size
  | action => m.ip + Int64.ofNat action.opcode.size

/-- The register that an action writes by its own operand. -/
def Action.target? : Action → Option Register
  | .copy _ target | .assign target _ | .store target => some target
  | _ => none

/-- What can keep an action from being planned. -/
inductive Action.Objection (action : Action) : Cause → Prop
  | stack {cause : Cause} (state : cause = .stackFull ∨ cause = .stackEmpty ∨ cause = .stackShallow) :
      Objection action cause
  | guarded {r : Register} {cause : Cause} (target : action.target? = some r) (refused : r.writable = .error cause) :
      Objection action cause
  | arithmetic {f : BinaryOp} {b a : Int64} {cause : Cause} (refused : f.apply b a = .error cause) :
      Objection action cause
  | negative {c : Condition} {source : Register} {wanted target : Int64}
      (branches : action = .branch c source wanted target) (below : target < 0) :
      Objection action (.negativeTarget target)

namespace Machine

variable {m : Machine} {latch : Bool} {action : Action} {t : Transaction}

/-- The value so many cells below the top. -/
def operand (m : Machine) (depth : Int) : Int64 := (m.stack.cell (m.sp - depth)).getD 0

/-- What each action becomes, and what has to hold of the machine. -/
inductive Planned (latch : Bool) (m : Machine) : Action → Transaction → Prop
  | halt : Planned latch m .halt { op := .hlt, nextIP := m.ip, halted := true, detail := utf8 "halted" }
  | nothing : Planned latch m .nothing { op := .nop, nextIP := Action.nothing.nextIP m, detail := utf8 "no operation" }
  | report {source : Register} : Planned latch m (.report source)
      { op := .log, nextIP := (Action.report source).nextIP m
        detail := source.name ++ utf8 " = " ++ value (m.registers.get source) ++ utf8 " (" ++
          hexValue (m.registers.get source) ++ utf8 ")" }
  | push {v : Int64} (room : m.stack.isFull = false) : Planned latch m (.push v)
      { op := .psh, nextIP := (Action.push v).nextIP m, push := some (v, utf8 "pushed")
        detail := utf8 "pushed " ++ value v ++ utf8 " -> " ++ stackCellText (m.sp + 1) }
  | load {source : Register} (room : m.stack.isFull = false) : Planned latch m (.load source)
      { op := .gld, nextIP := (Action.load source).nextIP m
        push := some (m.registers.get source, utf8 "pushed")
        detail := utf8 "pushed " ++ source.name ++ utf8 " (" ++ value (m.registers.get source) ++ utf8 ") -> " ++
          stackCellText (m.sp + 1) }
  | drop (depth : 0 ≤ m.sp) : Planned latch m .drop
      { op := .pop, nextIP := Action.drop.nextIP m, pops := 1
        consumed := [⟨m.sp, m.stack.cell m.sp, utf8 "popping"⟩]
        detail := utf8 "popped " ++ value ((m.stack.cell m.sp).getD 0) ++ utf8 " from " ++ stackCellText m.sp }
  | latched {f : BinaryOp} {c : Int64} (depth : 1 ≤ m.sp) (arithmetic : f.isLatched = true)
      (applied : f.apply (m.operand 1) (m.operand 0) = .ok c) : Planned latch m (.combine f)
      { op := f.opcode, nextIP := (Action.combine f).nextIP m, pops := 2, push := some (c, utf8 "result")
        consumed := [⟨m.sp, some (m.operand 0), utf8 "A (top)"⟩, ⟨m.sp - 1, some (m.operand 1), utf8 "B"⟩]
        writes := if latch then [(.a, m.operand 0), (.b, m.operand 1), (.c, c)] else []
        detail := value (m.operand 1) ++ utf8 " " ++ f.symbol ++ utf8 " " ++ value (m.operand 0) ++ utf8 " = " ++
          value c ++ utf8 " -> " ++ stackCellText (m.sp - 1) }
  | compared {f : BinaryOp} {c : Int64} (depth : 1 ≤ m.sp) (comparison : f.isLatched = false)
      (applied : f.apply (m.operand 1) (m.operand 0) = .ok c) : Planned latch m (.combine f)
      { op := f.opcode, nextIP := (Action.combine f).nextIP m, pops := 2, push := some (c, utf8 "result")
        consumed := [⟨m.sp, some (m.operand 0), utf8 "top"⟩, ⟨m.sp - 1, some (m.operand 1), utf8 "second"⟩]
        detail := value (m.operand 1) ++ utf8 " " ++ f.symbol ++ utf8 " " ++ value (m.operand 0) ++ utf8 " -> " ++
          value c }
  | copy {source target : Register} (general : target.role ≠ .pointer) : Planned latch m (.copy source target)
      { op := .mov, nextIP := (Action.copy source target).nextIP m, writes := [(target, m.registers.get source)]
        detail := target.name ++ utf8 " = " ++ source.name ++ utf8 " (" ++ value (m.registers.get source) ++
          utf8 ")" }
  | assign {target : Register} {v : Int64} (general : target.role ≠ .pointer) : Planned latch m (.assign target v)
      { op := .set, nextIP := (Action.assign target v).nextIP m, writes := [(target, v)]
        detail := target.name ++ utf8 " = " ++ value v }
  | store {target : Register} (depth : 0 ≤ m.sp) (general : target.role ≠ .pointer) :
      Planned latch m (.store target)
      { op := .gpt, nextIP := (Action.store target).nextIP m
        consumed := [⟨m.sp, m.stack.cell m.sp, utf8 "top"⟩]
        writes := [(target, (m.stack.cell m.sp).getD 0)]
        detail := target.name ++ utf8 " = " ++ stackCellText m.sp ++ utf8 " (" ++
          value ((m.stack.cell m.sp).getD 0) ++ utf8 ")" }
  | jump {c : Condition} {source : Register} {wanted target : Int64} (inside : 0 ≤ target.toInt)
      (holds : c.holds (m.registers.get source) wanted = true) : Planned latch m (.branch c source wanted target)
      { op := c.opcode, nextIP := target
        detail := source.name ++ utf8 " " ++ c.symbol ++ utf8 " " ++ value wanted ++ utf8 ": jump to " ++
          value target }
  | skip {c : Condition} {source : Register} {wanted target : Int64} (inside : 0 ≤ target.toInt)
      (fails : ¬ c.holds (m.registers.get source) wanted = true) : Planned latch m (.branch c source wanted target)
      { op := c.opcode, nextIP := m.ip + Int64.ofNat c.opcode.size
        detail := source.name ++ utf8 " " ++ c.symbol ++ utf8 " " ++ value wanted ++ utf8 " is false: skip to " ++
          value (m.ip + Int64.ofNat c.opcode.size) }

/-- What can come of planning an action. -/
inductive Verdict (latch : Bool) (m : Machine) (action : Action) : Except Cause Transaction → Prop
  | granted {t : Transaction} (planned : m.Planned latch action t) : Verdict latch m action (.ok t)
  | refused {cause : Cause} (objection : action.Objection cause) : Verdict latch m action (.error cause)

theorem plan_verdict (latch : Bool) (m : Machine) (action : Action) :
    m.Verdict latch action (m.plan latch action) := by
  cases action with
  | halt => exact .granted .halt
  | nothing => exact .granted .nothing
  | report source => exact .granted .report
  | push v =>
    simp only [plan, bind, Except.bind, pure, Except.pure]
    split
    next => exact .refused (.stack (by simp))
    next room => exact .granted (.push (Bool.eq_false_iff.mpr room))
  | load source =>
    simp only [plan, bind, Except.bind, pure, Except.pure]
    split
    next => exact .refused (.stack (by simp))
    next room => exact .granted (.load (Bool.eq_false_iff.mpr room))
  | drop =>
    simp only [plan, bind, Except.bind, pure, Except.pure]
    split
    next => exact .refused (.stack (by simp))
    next depth => exact .granted (.drop (by omega))
  | combine f =>
    have htop : (m.stack.cell m.sp).getD 0 = m.operand 0 := by rw [operand, Int.sub_zero]
    have hsecond : (m.stack.cell (m.sp - 1)).getD 0 = m.operand 1 := rfl
    simp only [plan, bind, Except.bind, pure, Except.pure, htop, hsecond]
    split
    next => exact .refused (.stack (by simp))
    next depth =>
      split
      next refused => exact .refused (.arithmetic refused)
      next c applied =>
        split
        next arithmetic => exact .granted (.latched (by omega) arithmetic applied)
        next comparison => exact .granted (.compared (by omega) (Bool.eq_false_iff.mpr comparison) applied)
  | copy source target =>
    simp only [plan, bind, Except.bind, pure, Except.pure]
    split
    next refused => exact .refused (.guarded rfl refused)
    next r writable =>
      obtain ⟨rfl, general⟩ := Register.role_of_writable writable
      exact .granted (.copy general)
  | assign target v =>
    simp only [plan, bind, Except.bind, pure, Except.pure]
    split
    next refused => exact .refused (.guarded rfl refused)
    next r writable =>
      obtain ⟨rfl, general⟩ := Register.role_of_writable writable
      exact .granted (.assign general)
  | store target =>
    simp only [plan, bind, Except.bind, pure, Except.pure]
    split
    next => exact .refused (.stack (by simp))
    next depth =>
      split
      next refused => exact .refused (.guarded rfl refused)
      next r writable =>
        obtain ⟨rfl, general⟩ := Register.role_of_writable writable
        exact .granted (.store (by omega) general)
  | branch c source wanted target =>
    simp only [plan, bind, Except.bind, pure, Except.pure]
    split
    next below => exact .refused (.negative rfl below)
    next inside =>
      rw [Int64.lt_iff_toInt_lt, Int64.toInt_zero, Int.not_lt] at inside
      split
      next holds => exact .granted (.jump inside holds)
      next fails => exact .granted (.skip inside fails)

theorem plan_planned (hp : m.plan latch action = .ok t) : m.Planned latch action t := by
  have h := plan_verdict latch m action
  rw [hp] at h
  cases h with
  | granted planned => exact planned

theorem plan_objection {cause : Cause} (hp : m.plan latch action = .error cause) : action.Objection cause := by
  have h := plan_verdict latch m action
  rw [hp] at h
  cases h with
  | refused objection => exact objection

/-- A transaction is planned only where it can be carried out. -/
theorem plan_within (hs : m.stack.Valid) (hp : m.plan latch action = .ok t) : t.Within m.stack := by
  have hsize : m.stack.size = m.sp + 1 := rfl
  have hge : ((0 : Nat) : Int) ≤ m.stack.size := by
    have := hs.sp_ge
    simp only [Stack.size]
    omega
  cases plan_planned hp with
  | halt | nothing | report | jump | skip => exact ⟨hge, by simp, by simp⟩
  | push room | load room => exact ⟨hge, by simpa using room, by simp⟩
  | drop depth => exact ⟨by simp only [hsize]; omega, by simp, by simp⟩
  | latched depth =>
    refine ⟨by simp only [hsize]; omega, by simp, ?_⟩
    intro w hw
    cases latch with
    | false => simp at hw
    | true =>
      simp only [if_true, List.mem_cons, List.not_mem_nil, or_false] at hw
      rcases hw with rfl | rfl | rfl <;> simp [Register.role]
  | compared depth => exact ⟨by simp only [hsize]; omega, by simp, by simp⟩
  | copy general | assign general | store _ general => exact ⟨hge, by simp, by simpa using general⟩

/-- A transaction carries out its action: it has the opcode of the action, halts exactly for the one that halts, and
leads to what comes after the action. -/
theorem plan_course (hp : m.plan latch action = .ok t) :
    t.op = action.opcode ∧ (t.halted = true ↔ action = .halt) ∧ t.nextIP = action.nextIP m := by
  cases plan_planned hp with
  | jump _ holds => exact ⟨rfl, by simp, (if_pos holds).symm⟩
  | skip _ fails => exact ⟨rfl, by simp, (if_neg fails).symm⟩
  | _ => exact ⟨rfl, by simp, rfl⟩

theorem plan_target {c : Condition} {source : Register} {wanted target : Int64}
    (hp : m.plan latch (.branch c source wanted target) = .ok t) : 0 ≤ target.toInt := by
  cases plan_planned hp with
  | jump inside | skip inside => exact inside

/-- A register after a transaction: IP is the next instruction, SP follows the stack, any other register has what was
written to it. -/
theorem get_commit (hm : m.Valid) (hw : t.Within m.stack) (r : Register) :
    (m.commit t).1.registers.get r =
      if r = .ip then t.nextIP
      else if r = .sp then Int64.ofInt (m.commit t).1.sp
      else (m.registers.setAll t.writes).get r := by
  have hsp : ∀ w ∈ t.writes, w.1 ≠ .sp := by
    intro w hmem he
    have := hw.writes_general w hmem
    rw [he] at this
    exact this rfl
  have hafter : (m.commit t).1.sp = (t.stackAfter m.stack).sp := rfl
  have hregisters : (m.commit t).1.registers =
      (m.registers.setAll (t.registersAfter m.sp (t.stackAfter m.stack))).set .ip t.nextIP := rfl
  rw [hregisters, RegisterFile.get_set, hafter, Transaction.registersAfter, RegisterFile.setAll_append]
  by_cases hip : r = .ip
  · rw [if_pos hip.symm, if_pos hip]
  · rw [if_neg (Ne.symm hip), if_neg hip]
    split
    next he =>
      rw [RegisterFile.setAll_nil]
      by_cases hrs : r = .sp
      · rw [if_pos hrs, hrs, RegisterFile.get_setAll_of_untouched hsp, hm.spRegister, he]
      · rw [if_neg hrs]
    next =>
      rw [RegisterFile.setAll_cons, RegisterFile.setAll_nil, RegisterFile.get_set]
      by_cases hrs : r = .sp
      · rw [if_pos hrs.symm, if_pos hrs]
      · rw [if_neg (Ne.symm hrs), if_neg hrs]

theorem ip_commit (m : Machine) (t : Transaction) : (m.commit t).1.ip = t.nextIP := by
  have hregisters : (m.commit t).1.registers =
      (m.registers.setAll (t.registersAfter m.sp (t.stackAfter m.stack))).set .ip t.nextIP := rfl
  rw [Machine.ip, hregisters, RegisterFile.get_set, if_pos rfl]

theorem commit_stack_ofValues {capacity : Nat} {vs : List Int64} (hs : m.stack = .ofValues capacity vs)
    (hv : vs.length ≤ capacity) (hw : t.Within m.stack) :
    (m.commit t).1.stack = .ofValues capacity (t.pushed ++ vs.drop t.pops) := by
  have hstack : (m.commit t).1.stack = t.stackAfter m.stack := rfl
  rw [hs] at hw
  rw [hstack, hs, hw.stackAfter_eq hv]

/-- A planned transaction leaves a valid machine of the same capacity. -/
theorem Valid.commit (hm : m.Valid) (hw : t.Within m.stack) :
    (m.commit t).1.Valid ∧ (m.commit t).1.stack.capacity = m.stack.capacity := by
  obtain ⟨vs, hv, hs⟩ := hm.stack.exists_values
  have hafter := commit_stack_ofValues hs hv hw
  have hfit : (t.pushed ++ vs.drop t.pops).length ≤ m.stack.capacity := by
    rw [hs] at hw
    exact hw.length_stackAfter_le hv
  refine ⟨⟨?_, ?_⟩, ?_⟩
  · rw [hafter]
    exact Stack.valid_ofValues hfit
  · rw [get_commit hm hw]
    rfl
  · rw [hafter, Stack.capacity_ofValues hfit]

theorem valid_baseline {stack : Stack} (hs : stack.Valid) :
    (baseline stack).Valid ∧ (baseline stack).stack.capacity = stack.capacity := by
  obtain ⟨vs, hv, he⟩ := hs.exists_values
  have hreset : (baseline stack).stack = .ofValues stack.capacity [] := by
    have hb : (baseline stack).stack = stack.reset := rfl
    rw [hb, he, Stack.reset_ofValues hv, ← he]
  refine ⟨⟨?_, ?_⟩, ?_⟩
  · rw [hreset]
    exact Stack.valid_ofValues (by simp)
  · rw [Machine.sp, hreset]
    exact RegisterFile.get_set RegisterFile.zero .sp .sp (-1)
  · rw [hreset, Stack.capacity_ofValues (by simp)]

end Machine

end StackMachine
