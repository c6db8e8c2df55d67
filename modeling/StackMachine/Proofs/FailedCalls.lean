import StackMachine.Proofs.Delivery
import StackMachine.Proofs.TableRefinement

namespace StackMachine

open InstructionTable

theorem Error.message_eq (error : Error) :
    error.message = (if error.op = [] then [] else error.op ++ utf8 ": ") ++ error.body := by
  obtain ⟨op, cause⟩ := error
  cases op with
  | nil => rfl
  | cons b op => rfl

/-- The kinds of failures that lie in the instruction, not in when it is asked for. -/
def Kind.ofInstruction : List Kind :=
  [.stackOverflow, .stackUnderflow, .divideByZero, .invalidRegister, .invalidOpcode, .invalidOperand,
    .arithmeticOverflow, .noHalt]

/-- The kinds of failures that lie in the bytes of an instruction. -/
def Kind.ofReading : List Kind := [.invalidOpcode, .invalidOperand, .invalidRegister]

theorem Kind.ofReading_subset : ofReading ⊆ ofInstruction := by decide

theorem Kind.inTurn_of_mem {k : Kind} (h : k ∈ ofInstruction) : k ≠ .commitPending ∧ k ≠ .nothingPending := by
  have hall : ∀ k ∈ ofInstruction, k ≠ .commitPending ∧ k ≠ .nothingPending := by decide
  exact hall k h

namespace InstructionTable

theorem exists_of_firstViolation {checks : List Check} {kind : Kind} (h : firstViolation checks = some kind) :
    ∃ check ∈ checks, check.kind = kind := by
  induction checks with
  | nil => cases h
  | cons check checks ih =>
    rw [firstViolation] at h
    split at h
    next =>
      obtain ⟨later, hmem, hkind⟩ := ih h
      exact ⟨later, by simp [hmem], hkind⟩
    next => exact ⟨check, by simp, Option.some.inj h⟩

theorem operandCheck_kind (kind : OperandKind) (operand : Operand) :
    (operandCheck kind operand).kind ∈ Kind.ofInstruction := by
  unfold operandCheck
  split <;> simp [Kind.ofInstruction]

theorem operandChecks_kind {kinds : List OperandKind} {operands : List Operand} {check : Check}
    (h : check ∈ operandChecks kinds operands) : check.kind ∈ Kind.ofInstruction := by
  rcases List.mem_cons.mp h with rfl | h
  · simp [Kind.ofInstruction]
  · rw [← List.map_uncurry_zip_eq_zipWith] at h
    obtain ⟨⟨kind, operand⟩, _, rfl⟩ := List.mem_map.mp h
    exact operandCheck_kind kind operand

theorem row_kind (capacity : Nat) (latch : Bool) (p : Picture) (op : Opcode) (arguments : List Argument) :
    ∀ check ∈ (row capacity latch p op arguments).checks, check.kind ∈ Kind.ofInstruction := by
  unfold row
  split <;> simp [Kind.ofInstruction, room, depth, writable, representable, branch]

end InstructionTable

theorem readOperands_kind {kinds : List OperandKind} {bytes : Bytes} {offset : Nat} {cause : Cause}
    (h : readOperands kinds bytes offset = .error cause) : cause.kind ∈ Kind.ofReading := by
  induction kinds generalizing bytes offset with
  | nil => cases h
  | cons kind kinds ih =>
    -- after the operand itself, whatever goes wrong goes wrong in the rest
    have hrest : ∀ operand : Operand,
        (do return operand :: (← readOperands kinds bytes.tail (offset + 1)) : Except Cause (List Operand)) =
          .error cause → cause.kind ∈ Kind.ofReading := by
      intro operand h
      cases hr : readOperands kinds bytes.tail (offset + 1) with
      | error inner =>
        rw [hr] at h
        cases h
        exact ih hr
      | ok operands =>
        rw [hr] at h
        cases h
    cases kind with
    | register =>
      cases hi : Register.ofIndex? (bytes.headD 0).toNat with
      | none =>
        simp only [readOperands, hi] at h
        cases h
        simp [Kind.ofReading, Cause.kind]
      | some r =>
        simp only [readOperands, hi] at h
        exact hrest _ h
    | integer => exact hrest _ h
    | target => exact hrest _ h

theorem readInstruction_kind {offset : Nat} {first : UInt8} {rest : Bytes} {error : Error}
    (h : readInstruction offset first rest = .error error) : error.kind ∈ Kind.ofReading := by
  unfold readInstruction at h
  cases hc : Opcode.ofCode? first with
  | none =>
    rw [hc] at h
    cases h
    simp [Kind.ofReading, Error.kind, Cause.kind]
  | some op =>
    rw [hc] at h
    dsimp only at h
    by_cases hshort : rest.length < op.definition.operands.length
    · rw [if_pos hshort] at h
      cases h
      simp [Kind.ofReading, Error.kind, Cause.kind]
    · rw [if_neg hshort] at h
      cases hr : readOperands op.definition.operands rest (offset + 1) with
      | error cause =>
        rw [hr] at h
        cases h
        exact readOperands_kind hr
      | ok operands =>
        rw [hr] at h
        cases h

theorem decodeAt_kind {code : Bytes} {ip : Int64} {error : Error} (h : decodeAt code ip = .error error) :
    error.kind ∈ Kind.ofInstruction := by
  unfold decodeAt at h
  split at h
  next =>
    cases h
    simp [Kind.ofInstruction, Error.kind, Cause.kind]
  next =>
    split at h
    next =>
      cases h
      simp [Kind.ofInstruction, Error.kind, Cause.kind]
    next first rest _ => exact Kind.ofReading_subset (readInstruction_kind h)

namespace Engine

variable {e : Engine}

theorem plan_kind (hm : e.machine.Valid) {code : UInt8} {operands : List Operand} {error : Error}
    (h : (e.plan code operands).2 = .error error) : error.kind ∈ Kind.ofInstruction := by
  cases hc : Opcode.ofCode? code with
  | none =>
    simp only [plan, Opcode.ofByte, hc] at h
    cases h
    simp [Kind.ofInstruction, Error.kind, Cause.kind]
  | some op =>
    have hagrees := instruction_agrees hm e.latch op operands
    rw [plan_of_ofCode? e operands hc] at h
    unfold Agrees at hagrees
    split at hagrees
    next kind hviolation =>
      obtain ⟨cause, hcause, rfl⟩ := hagrees
      rw [hcause] at h
      cases h
      obtain ⟨check, hmem, hkind⟩ := exists_of_firstViolation hviolation
      have hin : check.kind ∈ Kind.ofInstruction := by
        rcases List.mem_append.mp hmem with hmem | hmem
        · exact operandChecks_kind hmem
        · exact row_kind _ _ _ _ _ check hmem
      rw [hkind] at hin
      exact hin
    next =>
      obtain ⟨t, ht, _⟩ := hagrees
      rw [ht] at h
      cases h

theorem Objects.kind_mem {c : Command} {op : Bytes} {error : Error} (hm : e.machine.Valid)
    (why : e.Objects c op error) : error.kind ∈ Kind.ofInstruction := by
  cases why with
  | unknown => simp [Kind.ofInstruction, Error.kind, Cause.kind]
  | fetch _ hd => exact decodeAt_kind hd
  | plan _ hp => exact plan_kind hm hp

/-- A command that fails leaves the engine as it was, the counters apart, and has one thing to tell, if any. -/
theorem Begins.failed {c : Command} {effect : Effect Reply} {error : Error} (hm : e.machine.Valid)
    (hb : e.Begins c effect) (herror : effect.reply = .error error) :
    e.Unmoved effect.settled.engine ∧
      ∃ op, effect.settled.events =
        if error.kind ≠ .commitPending ∧ error.kind ≠ .nothingPending ∧ e.busy = false
          then [.error op error.body] else [] := by
  cases hb with
  | refused _ _ kind =>
    cases herror
    exact ⟨rfl, [], by simp [kind, Effect.settled]⟩
  | nothing =>
    cases herror
    exact ⟨rfl, [], by simp [Effect.settled, Error.kind, Cause.kind]⟩
  | @rejected _ op _ log why _ =>
    cases herror
    obtain ⟨hpending, hnothing⟩ := Kind.inTurn_of_mem (why.kind_mem hm)
    obtain ⟨hengine, hevents⟩ := e.settled_rejection op error (.error error : Except Error Reply) log
    refine ⟨hengine, op, ?_⟩
    rw [hevents]
    simp only [ne_eq, hpending, hnothing, not_false_eq_true, true_and]
  | announced | executed | committed | reset => cases herror

end Engine

namespace Session

variable {ω : Type} {react : Reaction ω} {patience depth : Nat} {s : Session ω}

theorem perform_command_failed {c : Command} {failure : Failure} (hm : s.engine.machine.Valid)
    (hfailed : (s.perform react patience depth (.command c)).2 = .reply (.error failure))
    (unreset : (s.perform react patience depth (.command c)).1.engine.generation = s.engine.generation) :
    s.engine.Unmoved (s.perform react patience depth (.command c)).1.engine ∧
      ∃ op error, failure = .engine error ∧
        (s.perform react patience depth (.command c)).1.told = s.told ++ broadcast s.observers.length
          (if error.kind ≠ .commitPending ∧ error.kind ≠ .nothingPending ∧ s.engine.busy = false
            then [.error op error.body] else []) := by
  rw [perform_command_reply] at hfailed
  cases hr : (s.engine.begin c).reply with
  | ok reply =>
    rw [hr] at hfailed
    cases hfailed
  | error error =>
    rw [hr] at hfailed
    cases hfailed
    obtain ⟨hengine, op, hevents⟩ := (s.engine.begin_begins c).failed hm hr
    obtain ⟨_, hsettles⟩ := perform_command_settles unreset
    refine ⟨hengine.trans hsettles.unmoved, op, error, rfl, ?_⟩
    rw [hsettles.told_eq, Engine.perform, hevents]

theorem perform_step {nested : Session ω → List (Call ω) → Session ω}
    (hperform : ∀ s call, perform react patience depth s call = s.answer react nested patience call) (s : Session ω)
    (code : Bytes) :
    s.perform react patience depth (.command (.step code)) =
      let done := s.carryOut react nested (s.engine.step code)
      (done.1, .reply ((done.2.map .committed).mapError .engine)) := by
  rw [hperform]
  simp only [answer, Engine.begin, carryOut_map, carryOut_reply]
  rfl

theorem carryOut_of_perform_ok {nested : Session ω → List (Call ω) → Session ω} {t : Session ω} {code : Bytes}
    {result : Result}
    (hperform : ∀ s call, perform react patience depth s call = s.answer react nested patience call)
    (hstep : s.perform react patience depth (.command (.step code)) = (t, .reply (.ok (.committed result)))) :
    s.carryOut react nested (s.engine.step code) = (t, .ok result) := by
  rw [perform_step hperform] at hstep
  obtain ⟨t, reply, he⟩ : ∃ t reply, s.carryOut react nested (s.engine.step code) = (t, reply) := ⟨_, _, rfl⟩
  rw [he] at hstep ⊢
  cases reply with
  | error error => cases hstep
  | ok result =>
    cases hstep
    rfl

/-- Steps that all succeed without halting lead from one session to another. -/
def StepsTo (react : Reaction ω) (patience depth : Nat) (code : Bytes) (s : Session ω) (results : List Result)
    (s' : Session ω) : Prop :=
  s.converse react patience depth (List.replicate results.length (.command (.step code))) =
      (s', results.map fun result => .reply (.ok (.committed result))) ∧
    ∀ result ∈ results, result.halted = false

theorem StepsTo.nil (s : Session ω) (code : Bytes) : s.StepsTo react patience depth code [] s := ⟨rfl, by simp⟩

theorem StepsTo.cons {t s' : Session ω} {code : Bytes} {result : Result} {results : List Result}
    (hstep : s.perform react patience depth (.command (.step code)) = (t, .reply (.ok (.committed result))))
    (running : ¬ result.halted = true) (h : t.StepsTo react patience depth code results s') :
    s.StepsTo react patience depth code (result :: results) s' := by
  refine ⟨?_, by simpa [running] using h.2⟩
  rw [List.length_cons, List.replicate_succ, converse, hstep]
  dsimp only
  rw [h.1]
  rfl

theorem StepsTo.uncons {s' : Session ω} {code : Bytes} {result : Result} {results : List Result}
    (h : s.StepsTo react patience depth code (result :: results) s') :
    ∃ t, s.perform react patience depth (.command (.step code)) = (t, .reply (.ok (.committed result))) ∧
      result.halted = false ∧ t.StepsTo react patience depth code results s' := by
  obtain ⟨hsteps, hrunning⟩ := h
  obtain ⟨t, answer, hstep⟩ : ∃ t answer, s.perform react patience depth (.command (.step code)) = (t, answer) :=
    ⟨_, _, rfl⟩
  rw [List.length_cons, List.replicate_succ, converse, hstep, List.map_cons] at hsteps
  dsimp only at hsteps
  obtain ⟨hs', hanswers⟩ := Prod.mk.inj hsteps
  obtain ⟨rfl, hlater⟩ := List.cons.inj hanswers
  refine ⟨t, hstep, hrunning result (by simp), Prod.ext hs' hlater, ?_⟩
  exact fun r hr => hrunning r (by simp [hr])

theorem StepsTo.valid {s' : Session ω} {code : Bytes} {results : List Result} {o : Options}
    (h : s.StepsTo react patience depth code results s') (hv : s.engine.Valid o) : s'.engine.Valid o := by
  have hkept : (s.converse react patience depth
      (List.replicate results.length (.command (.step code)))).1.engine.Valid o :=
    converse_keeps (P := fun m => m.engine.Valid o) (fun _ move => Moment.valid_next move) hv
  rw [h.1] at hkept
  exact hkept

/-- A run takes steps that succeed, while its context is live, and then ends. -/
theorem Runs.stepsTo {nested : Session ω → List (Call ω) → Session ω} {code : Bytes} {context : Context}
    {left taken : Nat} {t : Session ω} {reply : Except Failure Result}
    (hperform : ∀ s call, perform react patience depth s call = s.answer react nested patience call)
    (h : Runs react nested code context left taken s t reply) :
    ∃ results before rest, left = results.length + rest ∧ s.StepsTo react patience depth code results before ∧
      (∀ k < results.length, context.reason? (taken + k) = none) ∧
      RunEnds engine (carryOut react nested) code context rest (taken + results.length) before t reply := by
  induction h with
  | @ends left _ s _ _ h => exact ⟨[], s, left, by simp, .nil s code, by simp, h⟩
  | @onward left taken s _ _ result _ live hcarry running _ ih =>
    obtain ⟨results, before, rest, rfl, hsteps, hlive, hends⟩ := ih
    refine ⟨result :: results, before, rest, ?_, ?_, ?_, ?_⟩
    · rw [List.length_cons]
      omega
    · refine .cons ?_ (by simp [running]) hsteps
      rw [perform_step hperform, hcarry]
      rfl
    · intro k hk
      cases k with
      | zero => exact live
      | succ k =>
        rw [← Nat.add_assoc, Nat.add_right_comm]
        exact hlive k (Nat.lt_of_succ_lt_succ hk)
    · rw [List.length_cons, ← Nat.add_assoc, Nat.add_right_comm]
      exact hends

theorem perform_run_failed {code : Bytes} {context : Context} {failure : Failure} {o : Options}
    (hv : s.engine.Valid o) (h : (s.perform react patience depth (.run code context)).2 = .reply (.error failure)) :
    ∃ before results, s.StepsTo react patience depth code results before ∧
      (∀ k < results.length, context.reason? k = none) ∧
      ((s.perform react patience depth (.run code context)).1.engine.generation = before.engine.generation →
        before.engine.Unmoved (s.perform react patience depth (.run code context)).1.engine) ∧
      (∀ why, failure = .interrupted why → context.reason? results.length = some why ∧
        (s.perform react patience depth (.run code context)).1 = before) ∧
      (failure = .unfinished → results.length = s.engine.allowance patience ∧
        (s.perform react patience depth (.run code context)).1 = before) ∧
      ∀ error, failure = .engine error → context.reason? results.length = none ∧
        (s.perform react patience depth (.run code context) =
            before.perform react patience depth (.command (.step code)) ∨
          results.length = s.engine.allowance patience ∧ error = ⟨[], .stepsSpent before.engine.maxSteps⟩) := by
  obtain ⟨nested, hn, hperform⟩ := perform_orderly react patience depth
  obtain ⟨t, reply, hruns, hanswer⟩ := answer_run react nested patience s code context
  rw [hperform, hanswer] at h ⊢
  obtain ⟨results, before, rest, hleft, hsteps, hlive, hends⟩ := hruns.stepsTo hperform
  rw [Nat.zero_add] at hends
  refine ⟨before, results, hsteps, fun k hk => by simpa using hlive k hk, ?_⟩
  cases hends with
  | interrupted done =>
    cases h
    refine ⟨fun _ => rfl, fun why he => ?_, fun he => ?_, fun error he => ?_⟩
    · cases he
      exact ⟨done, rfl⟩
    · cases he
    · cases he
  | spent live limited hcarry =>
    have hreply := congrArg Prod.snd hcarry
    rw [carryOut_reply, Engine.spendLimit, Engine.reject_eq] at hreply
    cases hreply
    cases h
    refine ⟨fun unreset => ?_, fun why he => ?_, fun he => ?_, fun error he => ?_⟩
    · have hafter : t = (before.carryOut react nested before.engine.spendLimit).1 := by rw [hcarry]
      dsimp only at unreset ⊢
      rw [hafter] at unreset ⊢
      exact before.engine.unmoved_spendLimit.trans (carryOut_spendLimit_settles hn unreset).unmoved
    · cases he
    · cases he
    · cases he
      exact ⟨live, .inr ⟨hleft.symm, rfl⟩⟩
  | unfinished live unlimited =>
    cases h
    refine ⟨fun _ => rfl, fun why he => ?_, fun _ => ⟨hleft.symm, rfl⟩, fun error he => ?_⟩
    · cases he
    · cases he
  | @failed _ _ _ _ error live hcarry =>
    cases h
    have hnext : before.perform react patience depth (.command (.step code)) =
        (t, .reply (.error (.engine error))) := by
      rw [perform_step hperform, hcarry]
      rfl
    refine ⟨fun unreset => ?_, fun why he => ?_, fun he => ?_, fun _ _ => ⟨live, .inl hnext.symm⟩⟩
    · have hfailed := perform_command_failed (hsteps.valid hv).machine (congrArg Prod.snd hnext)
      rw [hnext] at hfailed
      exact (hfailed unreset).1
    · cases he
    · cases he
  | halted => cases h

end Session

/-- How a call failed, if it did. -/
def Answer.failure? : Answer → Option Failure
  | .reply (.error failure) => some failure
  | _ => none

theorem Answer.eq_of_failure? {answer : Answer} {failure : Failure} (h : answer.failure? = some failure) :
    answer = .reply (.error failure) := by
  cases answer with
  | reply r =>
    cases r with
    | error => cases h; rfl
    | ok => cases h
  | register | status | stats | attached => cases h

/-- In every reachable state, inside a callback or not, a command that fails moves nothing but the counters as long as
no observer resets the engine. The observers are told one thing, an error line with the message of the error less the
operation in front of it, if the command came in turn and not from a callback, and nothing otherwise. A run that fails
leaves the engine as its steps left it: they all succeed while its context is live, and then the context ends it, the
next step fails or no step is left. Without a reset among the calls of the observers the generation stays. -/
theorem failed_calls_unmoved {ω : Type} (react : Reaction ω) (patience depth : Nat) {o : Options} {s : Session ω}
    (hr : s.engine.Reachable o) :
    (∀ (c : Command) (error : Error),
      let done := s.perform react patience depth (.command c)
      done.2 = .reply (.error (.engine error)) → done.1.engine.generation = s.engine.generation →
        s.engine.Unmoved done.1.engine ∧
        ∃ op text, error.message = (if error.op = [] then [] else error.op ++ utf8 ": ") ++ text ∧
          done.1.told = s.told ++ broadcast s.observers.length
            (if error.kind ≠ .commitPending ∧ error.kind ≠ .nothingPending ∧ s.engine.busy = false
              then [.error op text] else [])) ∧
    (∀ (code : Bytes) (context : Context) (failure : Failure),
      let done := s.perform react patience depth (.run code context)
      done.2 = .reply (.error failure) →
        ∃ before results, s.StepsTo react patience depth code results before ∧
          (∀ k < results.length, context.reason? k = none) ∧
          (done.1.engine.generation = before.engine.generation → before.engine.Unmoved done.1.engine) ∧
          (∀ why, failure = .interrupted why → context.reason? results.length = some why ∧ done.1 = before) ∧
          (failure = .unfinished → results.length = s.engine.allowance patience ∧ done.1 = before) ∧
          ∀ error, failure = .engine error → context.reason? results.length = none ∧
            (done = before.perform react patience depth (.command (.step code)) ∨
              results.length = s.engine.allowance patience ∧ error = ⟨[], .stepsSpent before.engine.maxSteps⟩)) ∧
    (react.Resetless → ∀ call : Call ω, .reset ∉ call.commands →
      (s.perform react patience depth call).1.engine.generation = s.engine.generation) := by
  have hv := hr.valid
  refine ⟨?_, ?_, ?_⟩
  · intro c error done hfailed unreset
    obtain ⟨hmoved, op, error', he, htold⟩ := Session.perform_command_failed hv.machine hfailed unreset
    cases he
    exact ⟨hmoved, op, error.body, error.message_eq, htold⟩
  · exact fun code context failure => Session.perform_run_failed hv
  · exact fun hreact call => Session.generation_perform hreact patience depth

/-- While an instruction is announced, a step outside the code is told to an observer that answers with an instruction
of its own, and the announcement stands. A run whose context ends it after two steps is left where they lead. -/
theorem failed_calls_unmoved_announced :
    ∃ (react : Reaction Unit) (fresh s : Session Unit) (code : Bytes) (context : Context),
      react = (fun _ _ => ((), [.command (.dispatch Opcode.psh.code [.imm 7])])) ∧ fresh = Session.opened {} [()] ∧
      s = (fresh.perform react 0 1 (.command (.announce (utf8 "PSH") [.imm 1]))).1 ∧
      code = List.replicate 4 Opcode.nop.code ∧ context = some ⟨2, .cancelled⟩ ∧
      (s.engine.phase = .awaitingCommit ∧
        (s.perform react 0 1 (.command (.step []))).2 = .reply (.error (.engine ⟨[], .outsideCode 0 0⟩)) ∧
        s.engine.Unmoved (s.perform react 0 1 (.command (.step []))).1.engine) ∧
      (fresh.perform react 4 1 (.run code context)).2 = .reply (.error (.interrupted .cancelled)) ∧
      ∃ results, results.length = 2 ∧
        fresh.StepsTo react 4 1 code results (fresh.perform react 4 1 (.run code context)).1 := by
  refine ⟨_, _, _, _, _, rfl, rfl, rfl, rfl, rfl, ?_⟩
  generalize hreact : (fun _ _ => ((), [.command (.dispatch Opcode.psh.code [.imm 7])]) : Reaction Unit) = react
  generalize hs : ((Session.opened {} [()]).perform react 0 1 (.command (.announce (utf8 "PSH") [.imm 1]))).1 = s
  have hr : s.engine.Reachable {} := by
    subst hs
    exact ⟨[], Session.perform_keeps (fun _ move => Moment.Reached.next move) ⟨[], rfl⟩⟩
  have hphase : s.engine.phase = .awaitingCommit := by
    subst hs hreact
    decide +kernel
  have hfailed : (s.perform react 0 1 (.command (.step []))).2 = .reply (.error (.engine ⟨[], .outsideCode 0 0⟩)) := by
    subst hs hreact
    exact Answer.eq_of_failure? (by decide +kernel)
  have hresetless : Reaction.Resetless react := by
    subst hreact
    intro observer event
    simp [Call.commands]
  have hcut : ((Session.opened {} [()]).perform react 4 1
      (.run (List.replicate 4 Opcode.nop.code) (some ⟨2, .cancelled⟩))).2 =
        .reply (.error (.interrupted .cancelled)) := by
    subst hreact
    exact Answer.eq_of_failure? (by decide +kernel)
  obtain ⟨hcommand, -, hgeneration⟩ := failed_calls_unmoved react 0 1 hr
  obtain ⟨-, hrun, -⟩ := failed_calls_unmoved react 4 1 (s := Session.opened {} [()]) ⟨[], ⟨[], rfl⟩⟩
  obtain ⟨before, results, hsteps, hlive, -, hend, -⟩ := hrun _ _ _ hcut
  obtain ⟨hdone, hbefore⟩ := hend .cancelled rfl
  have unreset := hgeneration hresetless (.command (.step [])) (by simp [Call.commands])
  refine ⟨⟨hphase, hfailed, (hcommand _ _ hfailed unreset).1⟩, hcut, results, Context.asked_eq hlive hdone, ?_⟩
  rw [hbefore]
  exact hsteps

end StackMachine
