import StackMachine.Proofs.ByteForm
import StackMachine.Proofs.RunLoop
import StackMachine.Proofs.TableRefinement
import StackMachine.Script

namespace StackMachine

theorem Operand.Canonical.right_unique : Relator.RightUnique Operand.Canonical := by
  intro o a b ha hb
  cases ha with
  | number v =>
    cases hb
    rfl
  | register named =>
    cases hb with
    | register named' =>
      rw [named] at named'
      cases named'
      rfl

theorem Action.ofOperands_canonical {op : Opcode} {operands operands' : List Operand} {action : Action}
    (h : Action.ofOperands op operands = .ok action) (hc : List.Forall₂ Operand.Canonical operands operands') :
    Action.ofOperands op operands' = .ok action := by
  obtain ⟨rfl, hown⟩ := Action.canonical_of_ofOperands h
  rw [List.right_unique_forall₂' Operand.Canonical.right_unique hc hown]
  exact Action.ofOperands_operands action

namespace Engine

variable {e : Engine} {code : UInt8} {operands operands' : List Operand} {encoded : Bytes}

theorem plan_canonical (h : encodeInstruction code operands = .ok encoded)
    (hc : List.Forall₂ Operand.Canonical operands operands') : e.plan code operands' = e.plan code operands := by
  obtain ⟨op, bytes, hop, hlayout, _⟩ := encodeInstruction_eq_ok_iff.mp h
  obtain ⟨action, ha⟩ := hlayout.exists_action
  have ha' := Action.ofOperands_canonical ha hc
  simp only [Engine.plan, Opcode.ofByte, hop, ha, ha']

/-- A step at an encoded instruction has the effect of the instruction itself, in every respect. -/
theorem step_encoded (h : encodeInstruction code operands = .ok encoded) (before after : Bytes)
    (hip : e.ip.toInt = before.length) : e.step (before ++ encoded ++ after) = e.dispatch code operands := by
  obtain ⟨i, hdecode, hcode, hcanonical, _⟩ := decodeAt_encoded h before after hip
  have hplan : e.plan code i.operands = e.plan code operands := plan_canonical h hcanonical
  simp only [Engine.step, hdecode, hcode, Engine.dispatch, hplan]

theorem begin_step_encoded (h : encodeInstruction code operands = .ok encoded) (before after : Bytes)
    (hip : e.ip.toInt = before.length) :
    e.begin (.step (before ++ encoded ++ after)) = e.begin (.dispatch code operands) := by
  simp only [Engine.begin, step_encoded h before after hip]

end Engine

theorem Session.perform_command_congr {ω : Type} {react : Reaction ω} {patience depth : Nat} {s : Session ω}
    {c c' : Command} (h : s.engine.begin c = s.engine.begin c') :
    s.perform react patience depth (.command c) = s.perform react patience depth (.command c') := by
  obtain ⟨nested, _, hperform⟩ := Session.perform_eq_answer react patience depth
  rw [hperform, hperform]
  simp only [Session.answer, h]

namespace Machine

variable {m : Machine} {latch : Bool} {action : Action} {t : Transaction}

/-- A planned transaction passes on to the next instruction, unless it halts or comes from a branch. -/
theorem plan_nextIP (hp : m.plan latch action = .ok t) (straight : ∀ c : Condition, action.opcode ≠ c.opcode)
    (running : t.halted = false) : t.nextIP = m.ip + Int64.ofNat action.opcode.size := by
  obtain ⟨_, hhalts, hnext⟩ := plan_course hp
  rw [hnext]
  cases action with
  | halt =>
    rw [hhalts.mpr rfl] at running
    cases running
  | branch c source wanted target => exact absurd rfl (straight c)
  | nothing | push | drop | combine | copy | assign | report | load | store => rfl

end Machine

namespace Engine

variable {e : Engine} {code : UInt8} {operands : List Operand}

/-- The halting instruction is never refused for its own sake, and leaves the machine as it is. -/
theorem plan_halt (e : Engine) :
    ∃ t, (e.plan Opcode.hlt.code []).2 = .ok t ∧ t.halted = true ∧ (e.machine.commit t).1 = e.machine := by
  refine ⟨{ op := .hlt, nextIP := e.ip, halted := true, detail := utf8 "halted" }, rfl, rfl, ?_⟩
  have hregisters := e.machine.registers.set_get .ip
  simp only [Machine.commit, Transaction.stackAfter, Stack.dropTops, Transaction.registersAfter, Machine.sp]
  simp only [if_true, List.append_nil, RegisterFile.setAll_nil]
  exact congrArg (Machine.mk · e.machine.stack) hregisters

/-- IP stands at the end of an instruction that was carried out and neither halts nor branches. -/
theorem ip_after {op : Opcode} {t : Transaction} {before encoded : Bytes}
    (hencoded : encodeInstruction op.code operands = .ok encoded) (hp : (e.plan op.code operands).2 = .ok t)
    (straight : ∀ c : Condition, op ≠ c.opcode) (running : t.halted = false) (hip : e.ip.toInt = before.length)
    (hfits : FitsWord (before ++ encoded).length) :
    (e.machine.commit t).1.ip.toInt = (before ++ encoded).length := by
  obtain ⟨op', action, hop, haction, hplan⟩ := plan_eq_ok hp
  obtain ⟨_, bytes, hop', hlayout, rfl⟩ := encodeInstruction_eq_ok_iff.mp hencoded
  rw [Opcode.ofCode?_code] at hop hop'
  cases hop
  cases hop'
  obtain ⟨hopcode, _⟩ := Action.canonical_of_ofOperands haction
  have hnext := Machine.plan_nextIP hplan (by rw [hopcode]; exact straight) running
  have hsize : op.size = (op.code :: bytes).length := by
    rw [Opcode.size_eq, List.length_cons, hlayout.length_eq]
  have hlength : ((before ++ op.code :: bytes).length : Int) = before.length + op.size := by
    rw [List.length_append, ← hsize]
    omega
  have hword : (Int64.ofNat op.size).toInt = op.size := Int64.toInt_ofNat_of_lt (by cases op <;> decide)
  have hsum : e.machine.ip.toInt + (Int64.ofNat op.size).toInt = (before ++ op.code :: bytes).length := by
    rw [hword, hlength, ← hip]
    rfl
  rw [Machine.ip_commit, hnext, hopcode]
  exact (toInt_add_of_fits (by rw [hsum]; exact hfits)).trans hsum

/-- The engine takes instructions, and the next one is at this place. -/
structure StandsAt (e : Engine) (place : Nat) : Prop where
  free : e.busy = false
  idle : e.phase = .idle
  ip : e.ip.toInt = place

theorem StandsAt.dispatched {op : Opcode} {t : Transaction} {before encoded : Bytes} (stands : e.StandsAt before.length)
    (hencoded : encodeInstruction op.code operands = .ok encoded) (hp : (e.plan op.code operands).2 = .ok t)
    (straight : ∀ c : Condition, op ≠ c.opcode) (running : t.halted = false)
    (hfits : FitsWord (before ++ encoded).length) :
    (e.dispatch op.code operands).settled.engine.StandsAt (before ++ encoded).length := by
  obtain ⟨_, hengine⟩ := dispatch_settled_ok stands.free stands.idle hp
  rw [hengine]
  exact ⟨stands.free, stands.idle, ip_after hencoded hp straight running stands.ip hfits⟩

end Engine

/-- The bytes of a statement. -/
def Statement.Encodes (s : Statement) (encoded : Bytes) : Prop :=
  ∃ op, Opcode.ofName? s.word = some op ∧ encodeInstruction op.code s.operands = .ok encoded

def Statement.Branches (s : Statement) : Prop := ∃ c : Condition, Opcode.ofName? s.word = some c.opcode

/-- The program that the encodings of some statements make up. -/
def haltingProgram (encodings : List Bytes) : Bytes := encodings.flatten ++ [Opcode.hlt.code]

/-- A script leaves the state of an engine, and it fails with an error of the engine exactly if the reply of a run does. -/
structure ScriptRun.EndsLike (script : ScriptRun) (e : Engine) (reply : Except Failure Result) : Prop where
  snapshot_eq : e.snapshot = script.snapshot
  failed_iff : ∀ error, (∃ line text, script.failure = some (.statement line text error)) ↔
    reply = .error (.engine error)
  halted_iff : script.failure = none ↔ ∃ result, reply = .ok result ∧ result.halted = true

namespace ScriptRun.EndsLike

variable {e : Engine} {events : Array Event} {log : Array LogEntry}

theorem failed (e : Engine) (line : Nat) (text : Bytes) (error : Error) :
    EndsLike ⟨e.snapshot, some (.statement line text error), events, log⟩ e (.error (.engine error)) := by
  refine ⟨rfl, ?_, by simp⟩
  intro other
  constructor
  · rintro ⟨_, _, h⟩
    cases h
    rfl
  · intro h
    cases h
    exact ⟨line, text, rfl⟩

theorem halted {result : Result} {snapshot : Snapshot} (hs : e.snapshot = snapshot) (hh : result.halted = true) :
    EndsLike ⟨snapshot, none, events, log⟩ e (.ok result) :=
  ⟨hs, by simp, by simp [hh]⟩

end ScriptRun.EndsLike

theorem ScriptOptions.obstacle?_eq_none {o : ScriptOptions} (live : o.context = none) (unlimited : o.maxStatements ≤ 0)
    (done : Nat) : o.obstacle? done = none := by
  simp only [ScriptOptions.obstacle?, live, Context.reason?_none]
  rw [if_neg (by omega)]

/-- From a place in the program on, a run ends as the statements encoded there do. -/
theorem runsTo_encoded {o : ScriptOptions} (live : o.context = none) (unlimited : o.maxStatements ≤ 0)
    {statements : List Statement} {encodings : List Bytes} (h : List.Forall₂ Statement.Encodes statements encodings)
    (straight : ∀ s ∈ statements, ¬ s.Branches) {before : Bytes} {p : Progress}
    (stands : p.engine.StandsAt before.length)
    (hfits : FitsWord (before ++ haltingProgram encodings).length) {patience : Nat}
    (hpatience : statements.length < patience) (taken done : Nat) (events : Array Event) (log : Array LogEntry) :
    ∃ q reply,
      RunsTo Progress.engine Progress.carryOut (before ++ haltingProgram encodings) none patience taken p q reply ∧
      (runStatements o done statements p.engine events log).EndsLike q.engine reply := by
  obtain ⟨n, rfl⟩ : ∃ n, patience = n + 1 := ⟨patience - 1, by omega⟩
  induction h generalizing n before p taken done events log with
  | nil =>
    -- only the halting instruction is left
    have hstep : p.engine.step (before ++ haltingProgram []) = p.engine.dispatch Opcode.hlt.code [] := by
      have hencoded : encodeInstruction Opcode.hlt.code [] = .ok [Opcode.hlt.code] := rfl
      simpa [haltingProgram] using Engine.step_encoded hencoded before [] stands.ip
    obtain ⟨t, hp, hhalted, hmachine⟩ := p.engine.plan_halt
    obtain ⟨hreply, hengine⟩ := Engine.dispatch_settled_ok stands.free stands.idle hp
    obtain ⟨last, hlast, hcarry⟩ := p.carryOut_eq hreply
    rw [← hstep] at hcarry
    refine ⟨last, _, .ends (.halted rfl hcarry hhalted), .halted ?_ hhalted⟩
    rw [hlast, hengine, hmachine]
    rfl
  | @cons s encoded statements encodings hs _ ih =>
    obtain ⟨op, named, hencoded⟩ := hs
    have hprogram : before ++ haltingProgram (encoded :: encodings) =
        before ++ encoded ++ haltingProgram encodings := by
      simp [haltingProgram]
    rw [hprogram] at hfits ⊢
    have hstep := Engine.step_encoded (e := p.engine) hencoded before (haltingProgram encodings) stands.ip
    have hexecute : p.engine.execute s.word s.operands = p.engine.dispatch op.code s.operands := by
      simp only [Engine.execute, named]
    have hclear := ScriptOptions.obstacle?_eq_none live unlimited done
    cases hp : (p.engine.plan op.code s.operands).2 with
    | error error =>
      obtain ⟨hreply, _⟩ := Engine.dispatch_settled_error stands.free stands.idle hp
      obtain ⟨last, hlast, hcarry⟩ := p.carryOut_eq hreply
      rw [← hstep] at hcarry
      refine ⟨last, _, .ends (.failed rfl hcarry), ?_⟩
      simp only [hreply, runStatements, hclear, hexecute, hlast]
      exact ScriptRun.EndsLike.failed _ _ _ error
    | ok t =>
      obtain ⟨hreply, -⟩ := Engine.dispatch_settled_ok stands.free stands.idle hp
      obtain ⟨next, hnext, hcarry⟩ := p.carryOut_eq hreply
      rw [← hstep] at hcarry
      simp only [hreply, runStatements, hclear, hexecute]
      by_cases hhalted : (p.engine.machine.commit t).2.halted = true
      · rw [if_pos hhalted]
        exact ⟨next, _, .ends (.halted rfl hcarry hhalted), .halted (by rw [hnext]) hhalted⟩
      · rw [if_neg hhalted]
        have hop : ∀ c : Condition, op ≠ c.opcode := by
          rintro c rfl
          exact straight s List.mem_cons_self ⟨c, named⟩
        have hplace : FitsWord (before ++ encoded).length := by
          obtain ⟨_, hlt⟩ := hfits
          rw [List.length_append] at hlt
          exact ⟨by omega, by omega⟩
        have hrunning : t.halted = false := Bool.eq_false_iff.mpr hhalted
        have hnow := stands.dispatched hencoded hp hop hrunning hplace
        have hrest : ∀ s' ∈ statements, ¬ s'.Branches := fun s' hmem => straight s' (List.mem_cons_of_mem s hmem)
        simp only [List.length_cons] at hpatience
        obtain ⟨k, rfl⟩ : ∃ k, n = k + 1 := ⟨n - 1, by omega⟩
        rw [← hnext] at hnow ⊢
        obtain ⟨q, reply, hlater, hends⟩ := ih hrest hnow hfits (taken + 1) (done + 1) _ _ k (by omega)
        exact ⟨q, reply, .onward rfl hcarry hrunning hlater, hends⟩

/-- A step at an encoded instruction does what dispatching that instruction does, to the engine and to all who listen,
however its registers are spelled. A script whose statements can all be encoded and do not branch ends as the run of its
encoding does, whatever patience the run is given beyond the number of statements. -/
theorem encoded_script_agrees :
    (∀ (e : Engine) (code : UInt8) (operands : List Operand) (encoded before after : Bytes),
      encodeInstruction code operands = .ok encoded → e.ip.toInt = before.length →
        e.step (before ++ encoded ++ after) = e.dispatch code operands ∧
        ∀ (ω : Type) (react : Reaction ω) (patience depth : Nat) (s : Session ω), s.engine = e →
          s.perform react patience depth (.command (.step (before ++ encoded ++ after))) =
            s.perform react patience depth (.command (.dispatch code operands))) ∧
    (∀ (o : ScriptOptions) (source : Bytes) (statements : List Statement) (encodings : List Bytes) (patience : Nat),
      o.context = none → o.maxStatements ≤ 0 → parse source = .ok statements →
      List.Forall₂ Statement.Encodes statements encodings → (∀ s ∈ statements, ¬ s.Branches) →
      FitsWord (haltingProgram encodings).length → statements.length < patience →
        let run := (Engine.ofOptions { capacity := o.capacity, latch := o.latch }).run patience none
          (haltingProgram encodings)
        let script := runScript o source
        run.engine.snapshot = script.snapshot ∧
        (∀ error, (∃ line text, script.failure = some (.statement line text error)) ↔
          run.reply = .error (.engine error)) ∧
        (script.failure = none ↔ ∃ result, run.reply = .ok result ∧ result.halted = true)) := by
  refine ⟨?_, ?_⟩
  · intro e code operands encoded before after h hip
    refine ⟨Engine.step_encoded h before after hip, ?_⟩
    rintro ω react patience depth s rfl
    exact Session.perform_command_congr (Engine.begin_step_encoded h before after hip)
  · intro o source statements encodings patience live unlimited hparse hencoded straight hfits hpatience run script
    let e := Engine.ofOptions { capacity := o.capacity, latch := o.latch }
    have hstart : e.StandsAt ([] : Bytes).length := ⟨rfl, rfl, rfl⟩
    have hscript : script = runStatements o 0 statements e #[] #[] := by
      simp only [script, runScript, hparse]
      rfl
    obtain ⟨q, reply, hruns, hends⟩ :=
      runsTo_encoded (p := ⟨e, #[], #[]⟩) live unlimited hencoded straight hstart hfits hpatience 0 0 #[] #[]
    have hrun : run = { q with reply } := Engine.run_eq hruns
    rw [hrun, hscript]
    exact ⟨hends.snapshot_eq, hends.failed_iff, hends.halted_iff⟩

/-- A script that takes a value off the empty stack before it comes to its end. -/
theorem encoded_script_agrees_underflow :
    let o : ScriptOptions := { capacity := 3, latch := true }
    let script := runScript o (utf8 "psh 7\nPop\npop ; again\nhlt")
    let run := (Engine.ofOptions { capacity := 3, latch := true }).run 5 none (haltingProgram [[1, 7], [2], [2], [0]])
    run.reply = .error (.engine ⟨utf8 "POP", .stackEmpty⟩) ∧ run.engine.snapshot = script.snapshot ∧
      ∃ line text, script.failure = some (.statement line text ⟨utf8 "POP", .stackEmpty⟩) := by
  let statements : List Statement :=
    [⟨utf8 "PSH", [.imm 7], 1⟩, ⟨utf8 "POP", [], 2⟩, ⟨utf8 "POP", [], 3⟩, ⟨utf8 "HLT", [], 4⟩]
  have hparse : parse (utf8 "psh 7\nPop\npop ; again\nhlt") = .ok statements := by decide +kernel
  have hencoded : List.Forall₂ Statement.Encodes statements [[1, 7], [2], [2], [0]] :=
    .cons ⟨.psh, rfl, rfl⟩ (.cons ⟨.pop, rfl, rfl⟩ (.cons ⟨.pop, rfl, rfl⟩ (.cons ⟨.hlt, rfl, rfl⟩ .nil)))
  have hstraight : ∀ s ∈ statements, ∀ c : Condition, Opcode.ofName? s.word ≠ some c.opcode := by
    intro s hs c
    simp only [statements, List.mem_cons, List.not_mem_nil, or_false] at hs
    rcases hs with rfl | rfl | rfl | rfl <;> cases c <;> decide
  obtain ⟨hsnapshot, hfailed, _⟩ := encoded_script_agrees.2 { capacity := 3, latch := true } _ statements _ 5 rfl
    (by decide) hparse hencoded (fun s hs ⟨c, hc⟩ => hstraight s hs c hc) (by decide) (by decide)
  exact ⟨rfl, hsnapshot, (hfailed _).mpr rfl⟩

end StackMachine
