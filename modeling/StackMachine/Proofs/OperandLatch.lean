import StackMachine.Proofs.Invariant
import StackMachine.Proofs.Lockstep

namespace StackMachine

/-- The registers that the latch writes. -/
def Register.isLatched : Register → Bool
  | .a | .b | .c => true
  | _ => false

/-- The register that an action reads. -/
def Action.source? : Action → Option Register
  | .copy source _ | .report source | .branch _ source _ _ | .load source => some source
  | _ => none

/-- Whether an action reads a register that the latch writes. -/
def Action.readsLatch (action : Action) : Bool := action.source?.any Register.isLatched

/-- Whether an event tells of a register that the latch writes. -/
def Event.concernsLatch : Event → Bool
  | .register name _ => [Register.a, .b, .c].any (·.name == name)
  | _ => false

theorem Event.concernsLatch_register (r : Register) (v : Int64) :
    (Event.register r.name v).concernsLatch = r.isLatched := by
  cases r <;> rfl

/-- The writes to the other registers. -/
def unlatched (writes : List (Register × Int64)) : List (Register × Int64) := writes.filter fun w => !w.1.isLatched

theorem unlatched_append (first second : List (Register × Int64)) :
    unlatched (first ++ second) = unlatched first ++ unlatched second :=
  List.filter_append first second

namespace RegisterFile

/-- Register files that agree in all registers that the latch does not write. -/
def AgreesOffLatch (file file' : RegisterFile) : Prop := ∀ r, r.isLatched = false → file'.get r = file.get r

variable {file file' file'' : RegisterFile} {writes writes' : List (Register × Int64)}

theorem AgreesOffLatch.symm (h : file.AgreesOffLatch file') : file'.AgreesOffLatch file :=
  fun r hr => (h r hr).symm

theorem AgreesOffLatch.trans (h : file.AgreesOffLatch file') (h' : file'.AgreesOffLatch file'') :
    file.AgreesOffLatch file'' :=
  fun r hr => (h' r hr).trans (h r hr)

theorem AgreesOffLatch.set (h : file.AgreesOffLatch file') (r : Register) (v : Int64) :
    (file.set r v).AgreesOffLatch (file'.set r v) := by
  intro r' hr'
  rw [get_set, get_set, h r' hr']

theorem agreesOffLatch_set {r : Register} (hr : r.isLatched = true) (v : Int64) :
    file.AgreesOffLatch (file.set r v) := by
  intro r' hr'
  have hne : r ≠ r' := by
    intro he
    rw [he, hr'] at hr
    cases hr
  rw [get_set, if_neg hne]

theorem AgreesOffLatch.setAll_same (h : file.AgreesOffLatch file') (writes : List (Register × Int64)) :
    (file.setAll writes).AgreesOffLatch (file'.setAll writes) := by
  induction writes generalizing file file' with
  | nil => exact h
  | cons w writes ih => exact ih (h.set w.1 w.2)

theorem agreesOffLatch_unlatched (file : RegisterFile) (writes : List (Register × Int64)) :
    (file.setAll writes).AgreesOffLatch (file.setAll (unlatched writes)) := by
  induction writes generalizing file with
  | nil => exact fun _ _ => rfl
  | cons w writes ih =>
    rw [setAll_cons, unlatched, List.filter_cons]
    cases hw : w.1.isLatched with
    | true => exact ((agreesOffLatch_set hw w.2).setAll_same writes).symm.trans (ih file)
    | false => exact ih (file.set w.1 w.2)

/-- Writes to latched registers do not show elsewhere. -/
theorem AgreesOffLatch.setAll (h : file.AgreesOffLatch file') (hw : unlatched writes' = unlatched writes) :
    (file.setAll writes).AgreesOffLatch (file'.setAll writes') := by
  have hfirst := agreesOffLatch_unlatched file writes
  have hsecond := h.setAll_same (unlatched writes)
  have hthird := (agreesOffLatch_unlatched file' writes').symm
  rw [hw] at hthird
  exact (hfirst.trans hsecond).trans hthird

end RegisterFile

/-- Results that differ at most in what they say of latched registers. -/
def Result.AgreesOffLatch (r r' : Result) : Prop :=
  ∃ registers, r' = { r with registers } ∧ unlatched registers = unlatched r.registers

/-- Transactions that differ at most in what they write to latched registers. -/
def Transaction.AgreesOffLatch (t t' : Transaction) : Prop :=
  ∃ writes, t' = { t with writes } ∧ unlatched writes = unlatched t.writes

theorem Result.AgreesOffLatch.events_eq {r r' : Result} (h : r.AgreesOffLatch r') (ip : Int64) :
    (r'.events ip).filter (!·.concernsLatch) = (r.events ip).filter (!·.concernsLatch) := by
  obtain ⟨registers, rfl, hregisters⟩ := h
  have htold : ∀ writes : List (Register × Int64),
      (writes.map fun w => Event.register w.1.name w.2).filter (!·.concernsLatch) =
        (unlatched writes).map fun w => Event.register w.1.name w.2 := by
    intro writes
    rw [List.filter_map, unlatched]
    simp only [Function.comp_def, Event.concernsLatch_register]
  simp only [Result.events, List.filter_append, htold, hregisters]

namespace Machine

/-- Machines with the same stack whose registers agree where the latch does not write. -/
def AgreesOffLatch (m m' : Machine) : Prop := m'.stack = m.stack ∧ m.registers.AgreesOffLatch m'.registers

variable {m m' : Machine} {action : Action} {t t' : Transaction}

theorem AgreesOffLatch.ip_eq (h : m.AgreesOffLatch m') : m'.ip = m.ip := h.2 .ip rfl

theorem AgreesOffLatch.plan (h : m.AgreesOffLatch m') (spared : action.readsLatch = false) :
    Matches Transaction.AgreesOffLatch (m.plan false action) (m'.plan true action) := by
  have hip := h.ip_eq
  have hstack := h.1
  have hsp : m'.sp = m.sp := congrArg Stack.sp hstack
  have hself : ∀ x : Except Cause Transaction, Matches Transaction.AgreesOffLatch x x := by
    intro x
    cases x with
    | error cause => exact .failed cause
    | ok t => exact .done ⟨t.writes, rfl, rfl⟩
  cases action with
  | combine f =>
    -- the only action that looks at the latch
    simp only [Machine.plan, hip, hsp, hstack, bind, Except.bind, pure, Except.pure, throw, throwThe,
      MonadExceptOf.throw]
    by_cases hdepth : m.sp < 1
    · simp only [if_pos hdepth]
      exact .failed _
    · simp only [if_neg hdepth]
      cases f.apply ((m.stack.cell (m.sp - 1)).getD 0) ((m.stack.cell m.sp).getD 0) with
      | error cause => exact .failed cause
      | ok c =>
        dsimp only
        cases f.isLatched with
        | false => exact hself _
        | true => exact .done ⟨_, rfl, rfl⟩
  | copy source target | report source | branch _ source _ _ | load source =>
    have hsource : m'.registers.get source = m.registers.get source := h.2 source spared
    simp only [Machine.plan, hip, hsp, hstack, hsource]
    exact hself _
  | _ =>
    simp only [Machine.plan, hip, hsp, hstack]
    exact hself _

theorem AgreesOffLatch.commit (h : m.AgreesOffLatch m') (ht : t.AgreesOffLatch t') :
    (m.commit t).1.AgreesOffLatch (m'.commit t').1 ∧ (m.commit t).2.AgreesOffLatch (m'.commit t').2 := by
  obtain ⟨writes, rfl, hwrites⟩ := ht
  have hstack := h.1
  have hsp : m'.sp = m.sp := congrArg Stack.sp hstack
  have hregisters : unlatched (({ t with writes } : Transaction).registersAfter m.sp (t.stackAfter m.stack)) =
      unlatched (t.registersAfter m.sp (t.stackAfter m.stack)) := by
    simp only [Transaction.registersAfter, unlatched_append, hwrites]
  have hafter : ({ t with writes } : Transaction).stackAfter m.stack = t.stackAfter m.stack := rfl
  simp only [Machine.commit, hsp, hstack, hafter]
  exact ⟨⟨rfl, (h.2.setAll hregisters).set .ip t.nextIP⟩, _, rfl, hregisters⟩

end Machine

/-- An engine without the latch, and one with it. -/
def latching : Lockstep where
  latch := false
  latch' := true
  Machines := Machine.AgreesOffLatch
  Plans _ _ := Transaction.AgreesOffLatch
  Results := Result.AgreesOffLatch
  Admits _ action := action.readsLatch = false
  shown event := !event.concernsLatch
  ip_eq h := h.ip_eq
  plan_matches h spared := h.plan spared
  plans_eq := by
    rintro _ _ t _ ⟨writes, rfl, _⟩
    exact ⟨rfl, rfl, rfl⟩
  commit_machines h ht := (h.commit ht).1
  commit_results h ht := (h.commit ht).2
  halted_eq := by
    rintro r _ ⟨registers, rfl, _⟩
    rfl
  events_eq h := h.events_eq _
  baseline_machines := by
    rintro m m' ⟨hstack, _⟩
    rw [hstack]
    exact ⟨rfl, fun _ _ => rfl⟩

theorem Action.eq_combine {action : Action} {f : BinaryOp} (h : action.opcode = f.opcode) : action = .combine f := by
  cases action with
  | combine g => cases f <;> cases g <;> first | rfl | cases h
  | branch c => cases f <;> cases c <;> cases h
  | _ => cases f <;> cases h

/-- With the latch on, arithmetic writes its operands and its result. -/
theorem Machine.plan_latched {m : Machine} {f : BinaryOp} {t : Transaction} (hm : m.stack.Valid) (hf : f ≠ .less)
    (hp : m.plan true (.combine f) = .ok t) :
    ∃ a b rest v, m.stack.values = a :: b :: rest ∧ f.apply b a = .ok v ∧ t.pops = 2 ∧ t.pushed = [v] ∧
      t.writes = [(.a, a), (.b, b), (.c, v)] := by
  have hlatched : f.isLatched = true := bne_iff_ne.mpr hf
  cases plan_planned hp with
  | compared _ comparison =>
    rw [hlatched] at comparison
    cases comparison
  | latched depth _ applied =>
    have hsp : m.sp = m.stack.values.length - 1 := hm.sp_eq
    obtain ⟨a, b, rest, hvalues⟩ : ∃ a b rest, m.stack.values = a :: b :: rest := by
      cases htop : m.stack.values with
      | nil =>
        rw [htop, List.length_nil] at hsp
        omega
      | cons a below =>
        cases below with
        | nil =>
          rw [htop, List.length_singleton] at hsp
          omega
        | cons b rest => exact ⟨a, b, rest, rfl⟩
    have htop : m.operand 0 = a := by rw [operand, Int.sub_zero, Machine.sp, hm.cell_sp, hvalues]; rfl
    have hsecond : m.operand 1 = b := by rw [operand, Machine.sp, hm.cell_below_sp, hvalues]; rfl
    rw [htop, hsecond] at applied
    exact ⟨a, b, rest, _, hvalues, applied, rfl, rfl, by simp [htop, hsecond]⟩

theorem Machine.commit_latched {m : Machine} {f : BinaryOp} {t : Transaction} (hm : m.Valid) (hf : f ≠ .less)
    (hp : m.plan true (.combine f) = .ok t) :
    ∃ a b rest v, m.stack.values = a :: b :: rest ∧ f.apply b a = .ok v ∧
      (m.commit t).1.stack.values = v :: rest ∧ (m.commit t).1.registers.get .a = a ∧
      (m.commit t).1.registers.get .b = b ∧ (m.commit t).1.registers.get .c = v := by
  obtain ⟨a, b, rest, v, hvalues, hv, hpops, hpushed, hwrites⟩ := plan_latched hm.stack hf hp
  have hw := plan_within hm.stack hp
  obtain ⟨hfit, hs⟩ := hm.stack.eq_ofValues
  have hget : ∀ r : Register, r.role ≠ .pointer →
      (m.commit t).1.registers.get r = (m.registers.setAll [(.a, a), (.b, b), (.c, v)]).get r := by
    intro r hr
    have hip : r ≠ .ip := by rintro rfl; exact hr rfl
    have hsp : r ≠ .sp := by rintro rfl; exact hr rfl
    rw [get_commit hm hw r, if_neg hip, if_neg hsp, hwrites]
  refine ⟨a, b, rest, v, hvalues, hv, ?_, ?_, ?_, ?_⟩
  · rw [commit_stack_ofValues hs hfit hw, Stack.values_ofValues, hpops, hpushed, hvalues]
    rfl
  all_goals
    rw [hget _ (by decide)]
    simp [RegisterFile.get_set]

/-- A transaction that a command carries out was planned in the machine that the command finds. -/
theorem Engine.Valid.begin_committed {o : Options} {e : Engine} {c : Command} {result : Result} (hv : e.Valid o)
    (h : (e.begin c).reply = .ok (.committed result)) :
    ∃ action t, e.machine.plan o.latch action = .ok t ∧ result.op = action.opcode ∧
      (e.begin c).engine.machine = (e.machine.commit t).1 := by
  have hb := e.begin_begins c
  generalize e.begin c = effect at h hb
  cases hb with
  | refused | nothing | rejected | announced | reset => cases h
  | executed _ _ _ _ planned =>
    cases h
    obtain ⟨_, action, _, _, hplan⟩ := plan_eq_ok planned
    rw [hv.latch_eq] at hplan
    exact ⟨action, _, hplan, (Machine.plan_course hplan).1, rfl⟩
  | committed _ announced =>
    cases h
    obtain ⟨_, _, planned⟩ := hv.planned _ announced
    obtain ⟨_, action, _, _, hplan⟩ := plan_eq_ok planned
    rw [hv.latch_eq] at hplan
    exact ⟨action, _, hplan, (Machine.plan_course hplan).1, rfl⟩

/-- The same call without and with the latch. -/
structure Exchange.AgreesOffLatch (plain latched : Exchange) : Prop where
  answer : plain.answer.Matches Result.AgreesOffLatch latched.answer
  told : latched.told.filter (!·.2.concernsLatch) = plain.told.filter (!·.2.concernsLatch)
  snapshot : ∃ registers, latched.engine.snapshot = { plain.engine.snapshot with registers }
  registers : ∀ r, r.isLatched = false →
    latched.engine.machine.registers.get r = plain.engine.machine.registers.get r

/-- As long as no action reads A, B or C, engines with and without the latch agree call by call in what they answer and
show, but for these registers, and tell the same but for changes of these registers. With the latch, a sum, difference,
product or quotient leaves its operands, top first, and its value there. -/
theorem latch_spares_other_registers {ω : Type} {react : Reaction ω} (passive : react.Passive) (o : Options)
    (patience depth : Nat) (observers : List ω) {calls : List (Call ω)}
    (operate : ∀ call ∈ calls, call.operates = true)
    (spared : ∀ d ∈ (Session.opened { o with latch := false } observers).undertakes react patience depth calls,
      d.2.readsLatch = false) :
    List.Forall₂ Exchange.AgreesOffLatch
      ((Session.opened { o with latch := false } observers).exchanges react patience depth calls)
      ((Session.opened { o with latch := true } observers).exchanges react patience depth calls) ∧
    ∀ e : Engine, e.Reachable { o with latch := true } → ∀ (c : Command) (result : Result) (f : BinaryOp),
      (e.begin c).reply = .ok (.committed result) → result.op = f.opcode → f ≠ .less →
      ∃ a b rest v, e.machine.stack.values = a :: b :: rest ∧ f.apply b a = .ok v ∧
        (e.begin c).engine.machine.stack.values = v :: rest ∧
        (e.begin c).engine.machine.registers.get .a = a ∧ (e.begin c).engine.machine.registers.get .b = b ∧
        (e.begin c).engine.machine.registers.get .c = v := by
  constructor
  · have hmachines : latching.Machines (.baseline (.empty o.capacity)) (.baseline (.empty o.capacity)) :=
      ⟨rfl, fun _ _ => rfl⟩
    have hstart : latching.Sessions (Session.opened { o with latch := false } observers)
        (Session.opened { o with latch := true } observers) := ⟨.mk hmachines .none fun _ => rfl, rfl, rfl⟩
    refine (hstart.exchanges passive patience depth operate spared).imp ?_
    rintro ⟨answer, told, e⟩ ⟨answer', told', e'⟩ ⟨hanswer, htold, hengine⟩
    cases hengine with
    | @mk _ m' _ _ _ _ _ _ _ machines _ _ =>
      obtain ⟨hstack, hregisters⟩ := machines
      refine ⟨hanswer, htold, ⟨m'.registers.toList, ?_⟩, hregisters⟩
      have hip := Machine.AgreesOffLatch.ip_eq ⟨hstack, hregisters⟩
      simp only [Engine.snapshot, Engine.sp, Engine.ip, Machine.sp, hstack, hip]
  · intro e hr c result f hreply hop hf
    have hv := hr.valid
    obtain ⟨action, t, hplan, haction, hmachine⟩ := hv.begin_committed hreply
    rw [hop] at haction
    rw [Action.eq_combine haction.symm] at hplan
    rw [hmachine]
    exact Machine.commit_latched hv.machine hf hplan

/-- A difference, a value moved from its cell to A, and a run that branches on D. With the latch the difference leaves
its operands and its value in A, B and C. -/
theorem latch_spares_other_registers_run :
    ∃ (react : Reaction Unit) (calls : List (Call Unit)), react = (fun observer _ => (observer, [])) ∧
      calls = [.command (.execute (utf8 "PSH") [.imm 10]), .command (.execute (utf8 "PSH") [.imm 4]),
        .command (.execute (utf8 "SUB") []), .command (.announce (utf8 "GPT") [.reg (utf8 "A")]), .command .commit,
        .run (List.replicate 7 Opcode.nop.code ++ [Opcode.ifEq.code, 3, 0, 11, Opcode.hlt.code]) none] ∧
      (∀ d ∈ (Session.opened {} [()]).undertakes react 9 0 calls, d.2.readsLatch = false) ∧
      List.Forall₂ Exchange.AgreesOffLatch ((Session.opened {} [()]).exchanges react 9 0 calls)
        ((Session.opened { latch := true } [()]).exchanges react 9 0 calls) ∧
      ∃ e, e = ((Session.opened { latch := true } [()]).converse react 9 0 (calls.take 2)).1.engine ∧
        (e.begin (.execute (utf8 "SUB") [])).engine.machine.registers.toList.take 3 = [4, 10, 6] ∧
        ∃ a b rest v, e.machine.stack.values = a :: b :: rest ∧ BinaryOp.sub.apply b a = .ok v ∧
          (e.begin (.execute (utf8 "SUB") [])).engine.machine.registers.get .c = v := by
  refine ⟨_, _, rfl, rfl, by decide +kernel, ?_⟩
  generalize hreact : (fun observer _ => (observer, []) : Reaction Unit) = react
  have passive : Reaction.Passive react := by
    subst hreact
    exact fun _ _ => rfl
  generalize hcalls : ([_, _, _, _, _, _] : List (Call Unit)) = calls
  have operate : ∀ call ∈ calls, call.operates = true := by
    subst hcalls
    decide
  have spared : ∀ d ∈ (Session.opened {} [()]).undertakes react 9 0 calls, d.2.readsLatch = false := by
    subst hreact hcalls
    decide +kernel
  obtain ⟨hexchanges, hlatched⟩ := latch_spares_other_registers passive {} 9 0 [()] operate spared
  refine ⟨hexchanges, _, rfl, by subst hreact hcalls; decide +kernel, ?_⟩
  have hr := Session.reached_converse { latch := true } react 9 0 [()] (calls.take 2)
  have hreply : (((Session.opened { latch := true } [()]).converse react 9 0 (calls.take 2)).1.engine.begin
      (.execute (utf8 "SUB") [])).reply = .ok (.committed ⟨.sub, [(.a, 4), (.b, 10), (.c, 6), (.sp, 0)],
        [⟨0, some 6, utf8 "result"⟩, ⟨1, none, utf8 "popped"⟩], 5, false, utf8 "10 - 4 = 6 -> stack[0]"⟩) := by
    subst hreact hcalls
    decide +kernel
  obtain ⟨a, b, rest, v, hvalues, hv, _, _, _, hc⟩ := hlatched _ ⟨[], hr⟩ _ _ .sub hreply rfl (by decide)
  exact ⟨a, b, rest, v, hvalues, hv, hc⟩

end StackMachine
