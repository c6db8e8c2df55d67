import StackMachine.Proofs.Invariant
import StackMachine.Proofs.Lockstep

namespace StackMachine

namespace Stack

/-- The stack with more empty slots. -/
def widened (s : Stack) (n : Nat) : Stack := ⟨s.slots ++ List.replicate n .empty, s.sp⟩

theorem widened_ofValues {capacity : Nat} {vs : List Int64} (hv : vs.length ≤ capacity) (n : Nat) :
    (ofValues capacity vs).widened n = ofValues (capacity + n) vs := by
  have hsum : capacity + n - vs.length = capacity - vs.length + n := by omega
  simp only [widened, ofValues, hsum, List.append_assoc, List.replicate_append_replicate]

theorem capacity_widened (s : Stack) (n : Nat) : (s.widened n).capacity = s.capacity + n := by
  simp only [widened, capacity, List.length_append, List.length_replicate]

theorem cells_widened (s : Stack) (n : Nat) : (s.widened n).cells = s.cells ++ List.replicate n none := by
  rw [cells, widened, List.map_append, List.map_replicate]
  rfl

theorem cell_widened (s : Stack) (n : Nat) (i : Int) : (s.widened n).cell i = s.cell i := by
  by_cases hi : i < 0
  · simp only [cell, if_pos hi]
  · simp only [cell, if_neg hi, widened]
    by_cases hlt : i.toNat < s.slots.length
    · rw [List.getElem?_append_left hlt]
    · have hge : s.slots.length ≤ i.toNat := by omega
      have hnone : s.slots[i.toNat]? = none := List.getElem?_eq_none hge
      rw [List.getElem?_append_right hge, hnone, List.getElem?_replicate]
      split <;> rfl

theorem isFull_widened {s : Stack} (hs : s.Valid) (n : Nat) (h : s.isFull = false) : (s.widened n).isFull = false := by
  have hle := hs.sp_le
  have hsp : (s.widened n).sp = s.sp := rfl
  simp only [isFull, beq_eq_false_iff_ne, hsp, capacity_widened] at h ⊢
  omega

theorem reset_widened (s : Stack) (n : Nat) : (s.widened n).reset = s.reset.widened n := by
  simp only [reset, widened, List.map_append, List.map_replicate]

end Stack

/-- The actions that put a value on top of all others. -/
def Action.pushes : Action → Bool
  | .push _ | .load _ => true
  | _ => false

namespace Transaction

variable {t : Transaction} {capacity : Nat} {vs : List Int64}

/-- Cells above the stack are not touched. -/
theorem Within.hintAt_eq_none (hw : t.Within (.ofValues capacity vs)) (hv : vs.length ≤ capacity) {i : Nat}
    (hi : capacity ≤ i) : t.hintAt (vs.length - 1) i = none := by
  have hpops := hw.pops_le_length
  have hpopped : ¬ ((vs.length : Int) - 1 - t.pops < i ∧ (i : Int) ≤ vs.length - 1) := by omega
  unfold hintAt
  rw [if_neg hpopped]
  cases hp : t.push with
  | none => rfl
  | some pushed =>
    have hroom := hw.length_drop_lt hv (by rw [hp]; rfl)
    rw [List.length_drop] at hroom
    have hbelow : ¬ (i : Int) = vs.length - 1 - t.pops + 1 := by omega
    exact if_neg hbelow

theorem cellsAfter_widened {sp : Int} {after : Stack} (n : Nat)
    (h : ∀ i : Nat, after.capacity ≤ i → t.hintAt sp i = none) :
    t.cellsAfter sp (after.widened n) = t.cellsAfter sp after := by
  have habove : ((List.range n).map (after.capacity + ·)).filterMap (fun i : Nat =>
      (t.hintAt sp i).map fun hint => (⟨i, after.cell i, hint⟩ : CellChange)) = [] := by
    apply List.filterMap_eq_nil_iff.mpr
    intro i hi
    obtain ⟨k, _, rfl⟩ := List.mem_map.mp hi
    rw [h _ (Nat.le_add_right _ _)]
    rfl
  simp only [cellsAfter, Stack.capacity_widened, Stack.cell_widened, List.range_add, List.filterMap_append, habove,
    List.append_nil]

end Transaction

namespace Machine

variable {m : Machine} {latch : Bool} {action : Action} {t : Transaction}

def widened (m : Machine) (n : Nat) : Machine := { m with stack := m.stack.widened n }

theorem plan_full (latch : Bool) (hf : m.stack.isFull = true) (hp : action.pushes = true) :
    m.plan latch action = .error .stackFull := by
  cases action with
  | push | load =>
    simp only [plan, hf, if_true]
    rfl
  | _ => cases hp

theorem plan_widened (hs : m.stack.Valid) (n : Nat) (h : m.stack.isFull = true → action.pushes = false) :
    (m.widened n).plan latch action = m.plan latch action := by
  have hip : (m.widened n).ip = m.ip := rfl
  have hsp : (m.widened n).sp = m.sp := rfl
  have hregisters : (m.widened n).registers = m.registers := rfl
  have hcell : ∀ i, (m.widened n).stack.cell i = m.stack.cell i := m.stack.cell_widened n
  cases action with
  | push | load =>
    have hf : m.stack.isFull = false := by
      cases hf : m.stack.isFull with
      | false => rfl
      | true => cases h hf
    have hf' : (m.widened n).stack.isFull = false := Stack.isFull_widened hs n hf
    simp only [plan, hip, hsp, hregisters, hf, hf']
  | _ => simp only [plan, hip, hsp, hregisters, hcell]

theorem commit_widened (hm : m.Valid) (hw : t.Within m.stack) (n : Nat) :
    (m.widened n).commit t = ((m.commit t).1.widened n, (m.commit t).2) := by
  obtain ⟨vs, hv, hs⟩ := hm.stack.exists_values
  generalize m.stack.capacity = capacity at hv hs
  rw [hs] at hw
  have hwide : t.Within (.ofValues (capacity + n) vs) := by
    refine ⟨hw.pops_le, ?_, hw.writes_general⟩
    intro hpush hpops
    rw [← Stack.widened_ofValues hv]
    exact Stack.isFull_widened (Stack.valid_ofValues hv) n (hw.room hpush hpops)
  have hafter : t.stackAfter (m.stack.widened n) = (t.stackAfter m.stack).widened n := by
    rw [hs, Stack.widened_ofValues hv, hwide.stackAfter_eq (by omega), hw.stackAfter_eq hv,
      Stack.widened_ofValues (hw.length_stackAfter_le hv)]
  have hcells : t.cellsAfter m.sp ((t.stackAfter m.stack).widened n) = t.cellsAfter m.sp (t.stackAfter m.stack) := by
    apply Transaction.cellsAfter_widened
    intro i hi
    rw [hs, hw.stackAfter_eq hv, Stack.capacity_ofValues (hw.length_stackAfter_le hv)] at hi
    rw [Machine.sp, hs]
    exact hw.hintAt_eq_none hv hi
  have hsp : (m.widened n).sp = m.sp := rfl
  have hstack : (m.widened n).stack = m.stack.widened n := rfl
  have hregisters : t.registersAfter m.sp ((t.stackAfter m.stack).widened n) =
      t.registersAfter m.sp (t.stackAfter m.stack) := rfl
  simp only [commit, hsp, hstack, hafter, hcells, hregisters]
  rfl

end Machine

/-- A stack of some capacity, and the same stack with more empty cells. -/
def widening (latch : Bool) (capacity n : Nat) : Lockstep where
  latch := latch
  latch' := latch
  Machines m m' := m.Valid ∧ m.stack.capacity = capacity ∧ m' = m.widened n
  Plans m _ t t' := t.Within m.stack ∧ t' = t
  Results := Eq
  Admits m action := m.stack.isFull = true → action.pushes = false
  shown _ := true
  ip_eq := by
    rintro m _ ⟨_, _, rfl⟩
    rfl
  plan_matches := by
    rintro m _ action ⟨hm, _, rfl⟩ hfull
    rw [Machine.plan_widened hm.stack n hfull]
    cases hp : m.plan latch action with
    | error cause => exact .failed cause
    | ok t => exact .done ⟨Machine.plan_within hm.stack hp, rfl⟩
  plans_eq := by
    rintro m m' t _ ⟨_, rfl⟩
    exact ⟨rfl, rfl, rfl⟩
  commit_machines := by
    rintro m _ t _ ⟨hm, hcapacity, rfl⟩ ⟨hw, rfl⟩
    obtain ⟨hvalid, hkept⟩ := hm.commit hw
    rw [Machine.commit_widened hm hw]
    exact ⟨hvalid, hkept.trans hcapacity, rfl⟩
  commit_results := by
    rintro m _ t _ ⟨hm, _, rfl⟩ ⟨hw, rfl⟩
    rw [Machine.commit_widened hm hw]
  halted_eq := by
    rintro r _ rfl
    rfl
  events_eq := by
    rintro r _ ip rfl
    rfl
  baseline_machines := by
    rintro m _ ⟨hm, hcapacity, rfl⟩
    obtain ⟨hvalid, hkept⟩ := Machine.valid_baseline hm.stack
    refine ⟨hvalid, hkept.trans hcapacity, ?_⟩
    simp only [Machine.baseline, Machine.widened, Stack.reset_widened]

/-- The answer of a call that found no room on the stack. -/
def Answer.isOverflow : Answer → Bool
  | .reply (.error (.engine error)) => error.kind = .stackOverflow
  | _ => false

namespace Engine

variable {e : Engine} {c : Command} {action : Action}

theorem plan_action {code : UInt8} {operands : List Operand}
    (h : Action.ofInstruction? code operands = some action) :
    ∃ op, (e.plan code operands).2 = Cause.underOpcode op (e.machine.plan e.latch action) := by
  obtain ⟨op, hop, haction⟩ := Option.bind_eq_some_iff.mp h
  unfold Engine.plan Opcode.ofByte
  cases ha : Action.ofOperands op operands with
  | error cause => rw [ha] at haction; cases haction
  | ok planned =>
    rw [ha] at haction
    cases haction
    simp only [hop, ha, Cause.underOpcode]
    exact ⟨op, rfl⟩

/-- A command that sets out to push onto a full stack fails for want of room. -/
theorem reply_begin_full (ha : e.action? c = some action) (hf : e.machine.stack.isFull = true)
    (hp : action.pushes = true) : ∃ error, (e.begin c).reply = .error error ∧ error.kind = .stackOverflow := by
  unfold action? at ha
  split at ha
  next hturn =>
    obtain ⟨⟨code, operands⟩, hasked, haction⟩ := Option.bind_eq_some_iff.mp ha
    obtain ⟨op, hplan⟩ := plan_action (e := e) haction
    rw [Machine.plan_full e.latch hf hp] at hplan
    have hb := e.begin_begins c
    generalize e.begin c = effect at hb
    cases hb with
    | refused _ turn _ =>
      rcases turn with hbusy | ⟨hphase, _⟩
      · rw [hturn.1] at hbusy; cases hbusy
      · rw [hturn.2] at hphase; cases hphase
    | nothing | committed | reset => cases hasked
    | rejected why _ =>
      refine ⟨_, rfl, ?_⟩
      cases why with
      | unknown hmnemonic hname =>
        cases c with
        | execute | announce =>
          cases hmnemonic
          simp only [instruction?, hname, Option.map_none] at hasked
          cases hasked
        | _ => cases hmnemonic
      | fetch hstep hdecode =>
        subst hstep
        simp only [instruction?, hdecode] at hasked
        cases hasked
      | plan hasked' hplan' =>
        rw [hasked] at hasked'
        cases hasked'
        rw [hplan] at hplan'
        cases hplan'
        rfl
    | announced _ _ named planned =>
      simp only [instruction?, named, Option.map_some] at hasked
      cases hasked
      rw [hplan] at planned
      cases planned
    | executed _ _ _ asked planned =>
      rw [hasked] at asked
      cases asked
      rw [hplan] at planned
      cases planned
  next => cases ha

end Engine

namespace Session

variable {ω : Type} {react : Reaction ω} {nested : Session ω → List (Call ω) → Session ω} {s : Session ω}

theorem mem_setsOut {e : Engine} {c : Command} {d : Machine × Action} (h : d ∈ e.setsOut c) :
    d.1 = e.machine ∧ e.action? c = some d.2 := by
  obtain ⟨action, haction, rfl⟩ := List.mem_map.mp h
  exact ⟨rfl, Option.mem_toList.mp haction⟩

section Passive

variable (hp : react.Passive) (hn : ∀ s, nested s [] = s)

include hp hn

omit hp hn in
theorem roomy_first {code : Bytes} {d : Machine × Action} (hd : d ∈ s.engine.setsOut (.step code))
    (hfull : d.1.stack.isFull = true)
    (h : ∀ error, (s.engine.step code).reply = .error error → error.kind ≠ .stackOverflow) : d.2.pushes = false := by
  obtain ⟨hmachine, haction⟩ := mem_setsOut hd
  rw [hmachine] at hfull
  cases hpush : d.2.pushes with
  | false => rfl
  | true =>
    obtain ⟨error, hreply, hkind⟩ := Engine.reply_begin_full haction hfull hpush
    cases hr : (s.engine.step code).reply with
    | error error' =>
      simp only [Engine.begin, Effect.map, hr] at hreply
      cases hreply
      exact absurd hkind (h error hr)
    | ok result =>
      simp only [Engine.begin, Effect.map, hr] at hreply
      cases hreply

theorem Runs.roomy {code : Bytes} {context : Context} {left taken : Nat} {t : Session ω}
    {reply : Except Failure Result} (hruns : Runs react nested code context left taken s t reply)
    (h : ∀ error, reply = .error (.engine error) → error.kind ≠ .stackOverflow) :
    ∀ d ∈ s.engine.runSetsOut code context left taken, d.1.stack.isFull = true → d.2.pushes = false := by
  induction hruns with
  | @ends left _ _ _ _ hends =>
    intro d hd hfull
    cases hends with
    | interrupted done =>
      cases left with
      | zero => cases hd
      | succ left =>
        rw [(Engine.mem_runSetsOut_succ.mp hd).1] at done
        cases done
    | spent | unfinished => cases hd
    | failed live hcarry =>
      rw [carryOut_step_passive hp hn] at hcarry
      obtain ⟨_, hreply⟩ := Prod.mk.inj hcarry
      rcases (Engine.mem_runSetsOut_succ.mp hd).2 with hfirst | ⟨_, hok, _⟩
      · refine roomy_first hfirst hfull fun error herror => h error ?_
        rw [hreply] at herror
        cases herror
        rfl
      · rw [hreply] at hok
        cases hok
    | halted live hcarry halts =>
      rw [carryOut_step_passive hp hn] at hcarry
      obtain ⟨_, hreply⟩ := Prod.mk.inj hcarry
      rcases (Engine.mem_runSetsOut_succ.mp hd).2 with hfirst | ⟨_, hok, running, _⟩
      · refine roomy_first hfirst hfull fun error herror => ?_
        rw [hreply] at herror
        cases herror
      · rw [hreply] at hok
        cases hok
        rw [halts] at running
        cases running
  | onward live hcarry running later ih =>
    intro d hd hfull
    rw [carryOut_step_passive hp hn] at hcarry
    obtain ⟨rfl, hreply⟩ := Prod.mk.inj hcarry
    rcases (Engine.mem_runSetsOut_succ.mp hd).2 with hfirst | ⟨_, _, _, hlater⟩
    · refine roomy_first hfirst hfull fun error herror => ?_
      rw [hreply] at herror
      cases herror
    · exact ih h d hlater hfull

theorem answer_roomy {patience : Nat} {call : Call ω}
    (h : (s.answer react nested patience call).2.isOverflow = false) :
    ∀ d ∈ s.engine.undertakes patience call, d.1.stack.isFull = true → d.2.pushes = false := by
  intro d hd hfull
  cases call with
  | command c =>
    obtain ⟨hmachine, haction⟩ := mem_setsOut hd
    rw [hmachine] at hfull
    cases hpush : d.2.pushes with
    | false => rfl
    | true =>
      obtain ⟨error, hreply, hkind⟩ := Engine.reply_begin_full haction hfull hpush
      rw [answer_command_passive hp hn, hreply] at h
      exact absurd hkind (of_decide_eq_false h)
  | run code context =>
    obtain ⟨t, reply, hruns, hanswer⟩ := answer_run react nested patience s code context
    refine hruns.roomy hp hn (fun error herror hkind => ?_) d hd hfull
    rw [hanswer, herror] at h
    exact of_decide_eq_false h hkind
  | register | status | stats | attach => cases hd

omit hn in
theorem exchanges_roomy {patience depth : Nat} {calls : List (Call ω)}
    (h : ∀ x ∈ s.exchanges react patience depth calls, x.answer.isOverflow = false) :
    ∀ d ∈ s.undertakes react patience depth calls, d.1.stack.isFull = true → d.2.pushes = false := by
  obtain ⟨nested, hn, hperform⟩ := perform_eq_answer react patience depth
  induction calls generalizing s with
  | nil => intro d hd; cases hd
  | cons call calls ih =>
    rw [exchanges] at h
    intro d hd
    rcases List.mem_append.mp hd with hfirst | hlater
    · have hanswer := h _ List.mem_cons_self
      rw [hperform] at hanswer
      exact answer_roomy (s := s.cleared) hp hn hanswer d hfirst
    · exact ih (fun x hx => h x (List.mem_cons_of_mem _ hx)) d hlater

end Passive

end Session

/-- The same call on a stack of some capacity and on a wider one: same answer, same events, and snapshots that agree but
for additional empty cells. -/
structure Exchange.Widened (capacity n : Nat) (narrow wide : Exchange) : Prop where
  answer_eq : wide.answer = narrow.answer
  told_eq : wide.told = narrow.told
  cells_length : narrow.engine.snapshot.cells.length = capacity
  snapshot_eq : wide.engine.snapshot = { narrow.engine.snapshot with
    cells := narrow.engine.snapshot.cells ++ List.replicate n none }

/-- As long as a stack of some capacity does not overflow, a wider one gives the same results, previews and errors and
tells the same, call by call; the snapshots agree but for the additional cells, which stay empty. -/
theorem wider_stack_agrees {ω : Type} {react : Reaction ω} (passive : react.Passive) (o : Options) {c c' : Int}
    (positive : 1 ≤ c) (wider : c ≤ c') (patience depth : Nat) (observers : List ω) {calls : List (Call ω)}
    (operate : ∀ call ∈ calls, call.operates = true)
    (roomy : ∀ x ∈ (Session.opened { o with capacity := c } observers).exchanges react patience depth calls,
      x.answer.isOverflow = false) :
    List.Forall₂ (Exchange.Widened c.toNat (c' - c).toNat)
      ((Session.opened { o with capacity := c } observers).exchanges react patience depth calls)
      ((Session.opened { o with capacity := c' } observers).exchanges react patience depth calls) := by
  have hcapacity : Stack.capacityFor c = c.toNat := by
    unfold Stack.capacityFor
    split <;> omega
  have hsum : Stack.capacityFor c' = c.toNat + (c' - c).toNat := by
    unfold Stack.capacityFor
    split <;> omega
  have hwide : Stack.empty c' = (Stack.empty c).widened (c' - c).toNat := by
    rw [Stack.empty_eq_ofValues, Stack.empty_eq_ofValues, Stack.widened_ofValues (by simp), hsum, hcapacity]
  let L := widening o.latch c.toNat (c' - c).toNat
  have hmachines : L.Machines (.baseline (.empty c)) (.baseline (.empty c')) := by
    have hvalid := Engine.valid_ofOptions { o with capacity := c }
    refine ⟨hvalid.machine, hvalid.capacity_eq.trans hcapacity, ?_⟩
    simp only [Machine.baseline, Machine.widened, hwide, Stack.reset_widened]
  have hstart : L.Sessions (Session.opened { o with capacity := c } observers)
      (Session.opened { o with capacity := c' } observers) := ⟨.mk hmachines .none fun _ => rfl, rfl, rfl⟩
  have hexchanges := hstart.exchanges passive patience depth operate (Session.exchanges_roomy passive roomy)
  refine hexchanges.imp ?_
  rintro ⟨answer, told, e⟩ ⟨answer', told', e'⟩ ⟨hanswer, htold, hengine⟩
  have hall : ∀ events : List (Nat × Event), events.filter (L.shown ·.2) = events :=
    fun events => List.filter_eq_self.mpr fun _ _ => rfl
  rw [hall, hall] at htold
  cases hengine with
  | mk machines =>
    obtain ⟨_, hcapacity, rfl⟩ := machines
    refine ⟨hanswer.eq.symm, htold, (Stack.length_cells _).trans hcapacity, ?_⟩
    simp only [Engine.snapshot, Machine.widened, Stack.cells_widened]
    rfl

/-- Two cells are enough for a push that is announced and a run that pushes and adds; a pop then finds a value, and
after a reset it finds none. -/
theorem wider_stack_agrees_filled :
    ∃ (react : Reaction Unit) (calls : List (Call Unit)), react = (fun observer _ => (observer, [])) ∧
      calls = [.command (.announce (utf8 "PSH") [.imm 4]), .command .commit,
        .run [Opcode.nop.code, Opcode.nop.code, Opcode.psh.code, 5, Opcode.add.code, Opcode.hlt.code] none,
        .command (.execute (utf8 "POP") []), .command .reset, .command (.execute (utf8 "POP") [])] ∧
      (∀ x ∈ (Session.opened { capacity := 2 } [()]).exchanges react 9 0 calls, x.answer.isOverflow = false) ∧
      List.Forall₂ (Exchange.Widened 2 3) ((Session.opened { capacity := 2 } [()]).exchanges react 9 0 calls)
        ((Session.opened { capacity := 5 } [()]).exchanges react 9 0 calls) := by
  refine ⟨_, _, rfl, rfl, by decide +kernel, ?_⟩
  have positive : (1 : Int) ≤ 2 := by decide
  have wider : (2 : Int) ≤ 5 := by decide
  exact wider_stack_agrees (fun _ _ => rfl) {} positive wider 9 0 [()] (by decide) (by decide +kernel)

end StackMachine
