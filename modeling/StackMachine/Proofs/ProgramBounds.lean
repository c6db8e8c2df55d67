import StackMachine.Proofs.InstructionPointer
import StackMachine.Proofs.RunBudget

namespace StackMachine

/-- A pointer that a program can lead to. -/
def InProgram (code : Bytes) (ip : Int64) : Prop := 0 ≤ ip.toInt ∧ ip.toInt ≤ max code.length 255

/-- What an action can fail for once its operands are known to fit. -/
def Action.Faults (action : Action) (cause : Cause) : Prop :=
  cause.kind ∈ [Kind.stackOverflow, .stackUnderflow, .divideByZero, .arithmeticOverflow] ∨
    ∃ r, action.target? = some r ∧ (r = .ip ∨ r = .sp) ∧ cause = .engineRegister r

section Reading

variable {code : Bytes} {ip : Int64} {i : Instruction} {action : Action} {bytes : Bytes}

/-- The operands of an instruction that was read make up an action, and its integers are bytes. -/
theorem exists_action_of_decodeAt (h : decodeAt code ip = .ok i) :
    ∃ action bytes, Action.ofOperands i.op i.operands = .ok action ∧ action.opcode = i.op ∧
      action.operandBytes = .ok bytes := by
  obtain ⟨_, _, hencoded⟩ := encodeInstruction_decoded h
  obtain ⟨op, bytes, hop, hlayout, _⟩ := encodeInstruction_eq_ok_iff.mp hencoded
  rw [Opcode.ofCode?_code] at hop
  cases hop
  obtain ⟨action, haction⟩ := hlayout.exists_action
  obtain ⟨hopcode, hcanonical⟩ := Action.canonical_of_ofOperands haction
  have hown : Layout action.opcode.definition.operands action.operands bytes := by
    rw [hopcode]
    exact (Layout.canonical_iff hcanonical).mp hlayout
  exact ⟨action, bytes, haction, hopcode, Action.operandBytes_eq_ok_iff.mpr hown⟩

theorem branch_target_range {c : Condition} {source : Register} {wanted target : Int64}
    (h : (Action.branch c source wanted target).operandBytes = .ok bytes) : 0 ≤ target.toInt ∧ target.toInt ≤ 255 := by
  simp only [Action.operandBytes, bind_eq_ok_iff] at h
  obtain ⟨_, _, b, hb, _⟩ := h
  rw [operandByte_eq_ok_iff] at hb
  have hbyte := b.toNat_lt
  omega

/-- The place behind an instruction that was read is in the program or at its end. -/
theorem toInt_behind (hlen : (code.length : Int) < 2 ^ 63) (h : decodeAt code ip = .ok i) :
    (ip + Int64.ofNat i.op.size).toInt = ip.toInt + i.op.size ∧ ip.toInt + i.op.size ≤ code.length := by
  obtain ⟨hnonneg, hsize, _⟩ := encodeInstruction_decoded h
  have hbehind : ip.toInt + i.op.size ≤ code.length := by omega
  have hplace : ip.toInt + 1 + i.op.definition.operands.length = ip.toInt + i.op.size := by
    rw [Opcode.size_eq]
    omega
  refine ⟨?_, hbehind⟩
  rw [toInt_add_size, hplace, pointerAt, if_pos (by omega)]

/-- A program ends without a halt exactly where the pointer is behind it. -/
theorem decodeAt_noHalt_iff (hnonneg : 0 ≤ ip.toInt) :
    (∃ error, decodeAt code ip = .error error ∧ error.kind = .noHalt) ↔ code.length ≤ ip.toInt := by
  have hpositive : ¬ ip < 0 := by
    rw [Int64.lt_iff_toInt_lt]
    exact Int.not_lt.mpr hnonneg
  unfold decodeAt
  rw [if_neg hpositive]
  cases hdrop : code.drop ip.toInt.toNat with
  | nil =>
    rw [List.drop_eq_nil_iff] at hdrop
    exact ⟨fun _ => by omega, fun _ => ⟨_, rfl, rfl⟩⟩
  | cons first rest =>
    have hlength := congrArg List.length hdrop
    rw [List.length_drop, List.length_cons] at hlength
    constructor
    · rintro ⟨error, herror, hkind⟩
      have hmem := readInstruction_kind herror
      rw [hkind] at hmem
      exact absurd hmem (by decide)
    · intro hle
      omega

theorem BinaryOp.apply_faults {f : BinaryOp} {b a : Int64} {cause : Cause} (h : f.apply b a = .error cause) :
    cause.kind = .divideByZero ∨ cause.kind = .arithmeticOverflow := by
  rw [BinaryOp.apply_eq] at h
  split at h
  next => cases h; exact .inl rfl
  next =>
    split at h
    next => cases h
    next => cases h; exact .inr rfl

theorem plan_faults {m : Machine} {latch : Bool} {cause : Cause} (hbytes : action.operandBytes = .ok bytes)
    (h : m.plan latch action = .error cause) : action.Faults cause := by
  cases Machine.plan_objection h with
  | stack state => rcases state with rfl | rfl | rfl <;> exact .inl (by simp [Cause.kind])
  | @guarded r _ target refused =>
    unfold Register.writable at refused
    split at refused
    next hrole =>
      cases refused
      refine .inr ⟨r, target, ?_, rfl⟩
      cases r <;> simp [Register.role] at hrole ⊢
    next => cases refused
  | arithmetic refused =>
    rcases BinaryOp.apply_faults refused with hkind | hkind
    · exact .inl (by simp [hkind])
    · exact .inl (by simp [hkind])
  | negative branches below =>
    -- the target of a branch that was read is a byte
    rw [branches] at hbytes
    have hnonneg := (branch_target_range hbytes).1
    rw [Int64.lt_iff_toInt_lt, Int64.toInt_zero] at below
    omega

/-- What comes after an instruction of the program is in the program too. -/
theorem nextIP_inProgram {m : Machine} (hlen : (code.length : Int) < 2 ^ 63) (h : decodeAt code m.ip = .ok i)
    (haction : Action.ofOperands i.op i.operands = .ok action) (hplace : InProgram code m.ip) :
    InProgram code (action.nextIP m) := by
  obtain ⟨action', bytes, haction', hopcode, hbytes⟩ := exists_action_of_decodeAt h
  rw [haction] at haction'
  cases haction'
  obtain ⟨hsum, hbehind⟩ := toInt_behind hlen h
  have hnext : InProgram code (m.ip + Int64.ofNat action.opcode.size) := by
    have hnonneg := hplace.1
    rw [hopcode]
    unfold InProgram
    rw [hsum]
    omega
  cases action with
  | halt => exact hplace
  | branch c source wanted target =>
    obtain ⟨hnonneg, hbyte⟩ := branch_target_range hbytes
    simp only [Action.nextIP]
    split
    next => exact ⟨hnonneg, by omega⟩
    next => exact hnext
  | nothing | push | drop | combine | copy | assign | report | load | store => exact hnext

end Reading

/-- Why a step of a program fails: its bytes cannot be read at the pointer, or what they ask for cannot be done. -/
inductive StepError (code : Bytes) (ip : Int64) (error : Error) : Prop
  | fetch (unread : decodeAt code ip = .error error)
  | fault {i : Instruction} {action : Action} (read : decodeAt code ip = .ok i)
      (fits : Action.ofOperands i.op i.operands = .ok action) (named : error.op = i.op.name)
      (fault : action.Faults error.cause)

namespace Engine

variable {e : Engine} {code : Bytes}

/-- The engine is at rest in a machine as it is at first. -/
structure AtBaseline (e : Engine) : Prop extends AtRest e where
  machine_eq : ∃ stack, e.machine = .baseline stack

theorem atBaseline_reset (e : Engine) : e.reset.engine.AtBaseline := ⟨⟨rfl, rfl, rfl⟩, _, rfl⟩

theorem AtBaseline.inProgram (h : e.AtBaseline) (code : Bytes) : InProgram code e.ip := by
  obtain ⟨stack, hmachine⟩ := h.machine_eq
  have hzero : e.ip = 0 := by
    rw [Engine.ip, hmachine]
    exact RegisterFile.get_set RegisterFile.zero .sp .ip (-1)
  rw [hzero]
  have hlength : (0 : Int) ≤ code.length := Int.natCast_nonneg _
  exact ⟨Int.le_refl _, by rw [Int64.toInt_zero]; omega⟩

/-- What a step can do: it is refused out of turn, it fails, or it carries out the instruction at the pointer. -/
inductive Steps (e : Engine) (code : Bytes) : Effect Result → Prop
  | refused {error : Error} {log : List LogEntry} (turn : e.busy = true ∨ e.phase = .awaitingCommit) :
      Steps e code { engine := e, reply := .error error, log }
  | rejected {op : Bytes} {error : Error} {log : List LogEntry} (why : StepError code e.ip error) :
      Steps e code { engine := e.afterRejection, reply := .error error, log,
                     notice := if e.busy then none else some ⟨e.generation, [.error op error.body]⟩ }
  | executed {i : Instruction} {action : Action} {t : Transaction} {log : List LogEntry}
      (free : e.busy = false) (read : decodeAt code e.ip = .ok i)
      (fits : Action.ofOperands i.op i.operands = .ok action) (planned : e.machine.plan e.latch action = .ok t) :
      Steps e code { engine := e.afterTransaction t, reply := .ok (e.machine.commit t).2, log,
                     notice := some (e.transactionNotice t) }

theorem step_steps (e : Engine) (code : Bytes) : e.Steps code (e.step code) := by
  unfold step
  cases hd : decodeAt code e.ip with
  | error error =>
    dsimp only
    rw [reject_eq]
    exact .rejected (.fetch hd)
  | ok i =>
    obtain ⟨action, bytes, haction, _, hbytes⟩ := exists_action_of_decodeAt hd
    have hplan : (e.plan i.op.code i.operands).2 = Cause.underOpcode i.op (e.machine.plan e.latch action) := by
      rw [plan_of_ofCode? e i.operands (Opcode.ofCode?_code i.op), haction]
      rfl
    dsimp only
    unfold dispatch
    dsimp only
    cases hr : e.refusal? (Opcode.nameOfCode i.op.code) with
    | some error => exact .refused (refusal?_eq_some hr).1
    | none =>
      cases hp : e.machine.plan e.latch action with
      | error cause =>
        rw [hp] at hplan
        obtain ⟨log, he⟩ : ∃ log, e.plan i.op.code i.operands = (log, .error ⟨i.op.name, cause⟩) :=
          ⟨_, Prod.ext rfl hplan⟩
        rw [he]
        dsimp only
        rw [reject_eq]
        exact .rejected (.fault hd haction rfl (plan_faults hbytes hp))
      | ok t =>
        rw [hp] at hplan
        obtain ⟨log, he⟩ : ∃ log, e.plan i.op.code i.operands = (log, .ok t) := ⟨_, Prod.ext rfl hplan⟩
        rw [he]
        exact .executed (refusal?_eq_none_iff.mp hr).1 hd haction hp

section Steps

variable {effect : Effect Result}

theorem Steps.inProgram (h : e.Steps code effect) (hlen : (code.length : Int) < 2 ^ 63)
    (hplace : InProgram code e.ip) : InProgram code effect.engine.ip := by
  cases h with
  | refused => exact hplace
  | rejected => exact hplace
  | @executed i action t log free read fits planned =>
    have hip : (e.afterTransaction t).ip = action.nextIP e.machine :=
      (Machine.ip_commit e.machine t).trans (Machine.plan_course planned).2.2
    dsimp only
    rw [hip]
    exact nextIP_inProgram hlen read fits hplace

theorem Steps.phase_eq (h : e.Steps code effect) : effect.engine.phase = e.phase := by
  cases h with
  | refused => rfl
  | rejected => rfl
  | executed => rfl

theorem Steps.stepError (h : e.Steps code effect) (free : e.busy = false) (idle : e.phase = .idle)
    {error : Error} (herror : effect.reply = .error error) : StepError code e.ip error := by
  cases h with
  | refused turn => simp [free, idle] at turn
  | rejected why =>
    cases herror
    exact why
  | executed => cases herror

/-- A step that is taken at rest ends at rest, and what it tells of the pointer is where the pointer is then. -/
theorem Steps.settled (h : e.Steps code effect) (rest : e.AtRest) :
    effect.settled.engine.AtRest ∧ ∀ v, Event.ip v ∈ effect.settled.events → v = effect.engine.ip := by
  obtain ⟨free, idle, unannounced⟩ := rest
  cases h with
  | refused turn => simp [free, idle] at turn
  | rejected why =>
    simp only [free, Bool.false_eq_true, if_false, Effect.settled, settle_afterRejection free]
    refine ⟨⟨rfl, idle, unannounced⟩, ?_⟩
    intro v hv
    cases List.mem_singleton.mp hv
  | @executed i action t log _ read fits planned =>
    simp only [Effect.settled, transactionNotice, settle_afterTransaction free]
    refine ⟨⟨free, idle, unannounced⟩, ?_⟩
    intro v hv
    have hip : (e.afterTransaction t).ip = t.nextIP := Machine.ip_commit e.machine t
    rw [hip]
    simp only [Result.events, List.mem_append, List.mem_singleton, List.mem_map, reduceCtorEq, and_false, exists_false,
      or_false, false_or] at hv
    split at hv
    next => cases hv
    next =>
      cases List.mem_singleton.mp hv
      rfl

end Steps

end Engine

/-- A step of the program, or anything a run does between steps. -/
def Move.Over (code : Bytes) : Move → Prop
  | .call c => c = .step code
  | .spend | .settle => True

namespace Moment

variable {code : Bytes} {m : Moment}

theorem inProgram_next (hlen : (code.length : Int) < 2 ^ 63) {move : Move} (hover : move.Over code)
    (h : InProgram code m.engine.ip ∧ m.engine.phase = .idle) :
    InProgram code (m.next move).engine.ip ∧ (m.next move).engine.phase = .idle := by
  cases move with
  | call c =>
    obtain rfl : c = .step code := hover
    rw [next_step]
    have hsteps := m.engine.step_steps code
    exact ⟨hsteps.inProgram hlen h.1, hsteps.phase_eq.trans h.2⟩
  | spend =>
    rw [next_spend_engine]
    exact h
  | settle =>
    cases hn : m.notices with
    | nil => rw [next_settle_nil hn]; exact h
    | cons notice rest =>
      rw [next_settle_cons hn]
      unfold Engine.settle
      split
      next => exact h
      next => exact h

theorem inProgram_after (hlen : (code.length : Int) < 2 ^ 63) {e : Engine} (hbase : e.AtBaseline) {moves : List Move}
    (hover : ∀ move ∈ moves, move.Over code) :
    InProgram code ((Moment.mk e []).after moves).engine.ip ∧ ((Moment.mk e []).after moves).engine.phase = .idle :=
  after_keeps (P := fun m => InProgram code m.engine.ip ∧ m.engine.phase = .idle)
    (fun move hmove _ => inProgram_next hlen (hover move hmove)) ⟨hbase.inProgram code, hbase.idle⟩

/-- An effect whose notice is told to the end leaves the engine as it settles. -/
theorem begun_settle {α : Type} (e : Engine) (effect : Effect α) :
    ((Moment.mk e []).begun effect).next .settle = ⟨effect.settled.engine, []⟩ := by
  unfold begun Effect.settled
  cases hn : effect.notice with
  | none => exact next_settle_nil rfl
  | some notice => exact next_settle_cons rfl

end Moment

/-- Steps and runs of the program. -/
def Call.Over {ω : Type} (code : Bytes) : Call ω → Prop
  | .command c => c = .step code
  | .run ran _ => ran = code
  | _ => False

namespace Session

variable {ω : Type} {react : Reaction ω} {nested : Session ω → List (Call ω) → Session ω} {code : Bytes} {e : Engine}
  {s : Session ω}

/-- Between calls a session stands where moves over the program have led its engine, and has told of pointers in the
program only. -/
structure Follows (code : Bytes) (e : Engine) (s : Session ω) : Prop where
  rest : s.engine.AtRest
  reached : ∃ moves : List Move, (∀ move ∈ moves, move.Over code) ∧ (Moment.mk e []).after moves = ⟨s.engine, []⟩
  told : ∀ k v, (k, Event.ip v) ∈ s.told → InProgram code v

theorem Follows.inProgram (hlen : (code.length : Int) < 2 ^ 63) (hbase : e.AtBaseline) (h : s.Follows code e) :
    InProgram code s.engine.ip := by
  obtain ⟨moves, hover, hafter⟩ := h.reached
  have hplace := (Moment.inProgram_after hlen hbase hover).1
  rw [hafter] at hplace
  exact hplace

theorem mem_told_listened {α : Type} {done : Outcome α} {k : Nat} {event : Event}
    (h : (k, event) ∈ (s.listened react done).told) : (k, event) ∈ s.told ∨ event ∈ done.events := by
  have hmem : (k, event) ∈ s.told ∨ (k, event) ∈ broadcast s.observers.length done.events := by
    have hlist := Array.mem_toList_iff.mpr h
    simpa [listened] using hlist
  refine hmem.imp_right fun hnew => ?_
  simp only [broadcast, List.mem_flatMap, List.mem_map] at hnew
  obtain ⟨event', hmem, _, _, heq⟩ := hnew
  cases heq
  exact hmem

/-- A call that is made of moves over the program, tells of pointers in it and ends at rest goes on with it. -/
theorem Follows.listened {α : Type} {done : Outcome α} (h : s.Follows code e) (more : List Move)
    (hmore : ∀ move ∈ more, move.Over code) (hafter : (Moment.mk s.engine []).after more = ⟨done.engine, []⟩)
    (hrest : done.engine.AtRest) (hheard : ∀ v, Event.ip v ∈ done.events → InProgram code v) :
    (s.listened react done).Follows code e := by
  obtain ⟨moves, hover, hreached⟩ := h.reached
  refine ⟨hrest, ⟨moves ++ more, ?_, ?_⟩, ?_⟩
  · intro move hmove
    exact (List.mem_append.mp hmove).elim (hover move) (hmore move)
  · rw [Moment.after_append, hreached]
    exact hafter
  · intro k v hv
    exact (mem_told_listened hv).elim (h.told k v) (hheard v)

theorem Follows.step (hlen : (code.length : Int) < 2 ^ 63) (hbase : e.AtBaseline) (h : s.Follows code e) :
    (s.listened react (s.engine.step code).settled).Follows code e := by
  have hsteps := s.engine.step_steps code
  obtain ⟨hrest, hheard⟩ := hsteps.settled h.rest
  refine h.listened [.call (.step code), .settle] (by simp [Move.Over]) ?_ hrest ?_
  · rw [Moment.after_cons, Moment.next_step, Moment.after_cons, Moment.after_nil]
    exact Moment.begun_settle _ _
  · intro v hv
    rw [hheard v hv]
    exact hsteps.inProgram hlen (h.inProgram hlen hbase)

theorem Follows.spend (h : s.Follows code e) : (s.listened react s.engine.spendLimit.settled).Follows code e := by
  refine h.listened [.spend, .settle] (by simp [Move.Over]) (Moment.begun_settle _ _) ?_ ?_
  · rw [Engine.settled_spendLimit h.rest.free]
    exact ⟨h.rest.free, h.rest.idle, h.rest.unannounced⟩
  · intro v hv
    rw [Engine.settled_spendLimit h.rest.free] at hv
    cases List.mem_singleton.mp hv

end Session

/-- Why steps and runs of a program fail: for a step somewhere in it, or because a run has no steps left. -/
inductive ProgramError (code : Bytes) (error : Error) : Prop
  | step {ip : Int64} (place : InProgram code ip) (why : StepError code ip error)
  | spent {limit : Int64} (why : error = ⟨[], .stepsSpent limit⟩)

namespace Session

variable {ω : Type} {react : Reaction ω} {nested : Session ω → List (Call ω) → Session ω} {code : Bytes} {e : Engine}
  {s : Session ω}

theorem Follows.runs {context : Context} {left taken : Nat} {t : Session ω} {reply : Except Failure Result}
    (hlen : (code.length : Int) < 2 ^ 63) (hbase : e.AtBaseline) (hp : react.Passive) (hn : ∀ s, nested s [] = s)
    (h : s.Follows code e) (hruns : Runs react nested code context left taken s t reply) :
    t.Follows code e ∧ ∀ error, reply = .error (.engine error) → ProgramError code error := by
  have hone : ∀ {s t : Session ω} {reply : Except Error Result}, s.Follows code e →
      s.carryOut react nested (s.engine.step code) = (t, reply) →
      t.Follows code e ∧ ∀ error, reply = .error error → ProgramError code error := by
    intro s t reply h hcarry
    rw [carryOut_step_passive hp hn] at hcarry
    cases hcarry
    refine ⟨h.step hlen hbase, fun error herror => ?_⟩
    exact .step (h.inProgram hlen hbase) ((s.engine.step_steps code).stepError h.rest.free h.rest.idle herror)
  induction hruns with
  | ends hends =>
    cases hends with
    | interrupted | unfinished => exact ⟨h, fun error herror => by cases herror⟩
    | spent live limited hcarry =>
      rw [carryOut_spend_passive hp hn] at hcarry
      cases hcarry
      refine ⟨h.spend, fun error herror => ?_⟩
      rw [Engine.spendLimit, Engine.reject_eq] at herror
      cases herror
      exact .spent rfl
    | failed live hcarry =>
      obtain ⟨hnext, herrors⟩ := hone h hcarry
      refine ⟨hnext, fun error herror => ?_⟩
      cases herror
      exact herrors _ rfl
    | halted live hcarry => exact ⟨(hone h hcarry).1, fun error herror => by cases herror⟩
  | onward live hcarry running later ih => exact ih (hone h hcarry).1

theorem perform_follows (hlen : (code.length : Int) < 2 ^ 63) (hbase : e.AtBaseline) (hp : react.Passive)
    (patience depth : Nat) {call : Call ω} (hover : call.Over code) (h : s.Follows code e) :
    (s.perform react patience depth call).1.Follows code e ∧
      ∀ error, (s.perform react patience depth call).2 = .reply (.error (.engine error)) → ProgramError code error := by
  obtain ⟨nested, hn, hperform⟩ := perform_eq_answer react patience depth
  rw [hperform]
  cases call with
  | command c =>
    obtain rfl : c = .step code := hover
    have hsame : s.listened react (s.engine.perform (.step code)) =
        s.listened react (s.engine.step code).settled := by
      rw [Engine.perform, Engine.begin, Effect.settled_map]
      rfl
    rw [answer_command_passive hp hn, hsame]
    refine ⟨h.step hlen hbase, ?_⟩
    intro error herror
    cases hr : (s.engine.step code).reply with
    | ok result =>
      simp [Engine.begin, Effect.map, hr, Functor.map, Except.map, Except.mapError] at herror
    | error inner =>
      obtain rfl : inner = error := by
        simpa [Engine.begin, Effect.map, hr, Functor.map, Except.map, Except.mapError] using herror
      have hsteps := s.engine.step_steps code
      exact .step (h.inProgram hlen hbase) (hsteps.stepError h.rest.free h.rest.idle hr)
  | run ran context =>
    obtain rfl : ran = code := hover
    obtain ⟨t, reply, hruns, hanswer⟩ := answer_run react nested patience s ran context
    obtain ⟨hfollows, herrors⟩ := h.runs hlen hbase hp hn hruns
    rw [hanswer]
    refine ⟨hfollows, fun error herror => herrors error ?_⟩
    cases reply with
    | ok result => cases herror
    | error failure =>
      cases herror
      rfl
  | register | status | stats | attach => cases hover

theorem converse_follows (hlen : (code.length : Int) < 2 ^ 63) (hbase : e.AtBaseline) (hp : react.Passive)
    (patience depth : Nat) {calls : List (Call ω)} (hover : ∀ call ∈ calls, call.Over code) (h : s.Follows code e) :
    (s.converse react patience depth calls).1.Follows code e ∧
      ∀ error, .reply (.error (.engine error)) ∈ (s.converse react patience depth calls).2 →
        ProgramError code error := by
  induction calls generalizing s with
  | nil => exact ⟨h, fun error herror => by cases herror⟩
  | cons call calls ih =>
    obtain ⟨hnext, hanswer⟩ := perform_follows hlen hbase hp patience depth (hover call (by simp)) h
    obtain ⟨hlast, hanswers⟩ := ih (fun later hlater => hover later (by simp [hlater])) hnext
    refine ⟨hlast, ?_⟩
    intro error herror
    rcases List.mem_cons.mp herror with hfirst | hlater
    · exact hanswer error hfirst.symm
    · exact hanswers error hlater

end Session

/-- Over any program, every step and run from the baseline stays in it, whoever listens. At every moment the pointer is
in the program, at its end or at a byte; a fetch fails for the missing halt exactly behind the program; and an
instruction that was read has operands that fit and a size that leads to no wrapped pointer, and fails for the stack, the
arithmetic or a register of the engine only. Sessions with observers that only listen pass through such moments, and
their calls fail for what their steps fail for, or for want of steps. -/
theorem program_stays_in_bounds (code : Bytes) (hlen : (code.length : Int) < 2 ^ 63) (e : Engine)
    (hbase : e.AtBaseline) :
    (∀ moves : List Move, (∀ move ∈ moves, move.Over code) →
      ∃ now, now = ((Moment.mk e []).after moves).engine ∧
        0 ≤ now.ip.toInt ∧ now.ip.toInt ≤ max code.length 255 ∧
        ((∃ error, decodeAt code now.ip = .error error ∧ error.kind = .noHalt) ↔ code.length ≤ now.ip.toInt) ∧
        (∀ error, decodeAt code now.ip = .error error → (now.step code).reply = .error error) ∧
        ∀ i, decodeAt code now.ip = .ok i →
          (now.ip + Int64.ofNat i.op.size).toInt = now.ip.toInt + i.op.size ∧
          ∃ action, Action.ofOperands i.op i.operands = .ok action ∧
            ∀ error, now.busy = false → (now.step code).reply = .error error →
              error.op = i.op.name ∧
              (error.kind ∈ [Kind.stackOverflow, .stackUnderflow, .divideByZero, .arithmeticOverflow] ∨
                ∃ r, action.target? = some r ∧ (r = .ip ∨ r = .sp) ∧ error.cause = .engineRegister r)) ∧
    (∀ (ω : Type) (react : Reaction ω) (patience depth : Nat) (observers : List ω) (calls : List (Call ω)),
      react.Passive → (∀ call ∈ calls, call.Over code) →
      ∃ s answers, Session.converse react patience depth { engine := e, observers } calls = (s, answers) ∧
        s.engine.AtRest ∧
        (∃ moves : List Move, (∀ move ∈ moves, move.Over code) ∧
          (Moment.mk e []).after moves = ⟨s.engine, []⟩) ∧
        (∀ k v, (k, Event.ip v) ∈ s.told → 0 ≤ v.toInt ∧ v.toInt ≤ max code.length 255) ∧
        ∀ error, .reply (.error (.engine error)) ∈ answers → ProgramError code error) := by
  constructor
  · intro moves hover
    obtain ⟨hplace, hidle⟩ := Moment.inProgram_after hlen hbase hover
    generalize ((Moment.mk e []).after moves).engine = now at hplace hidle
    have hsteps := now.step_steps code
    refine ⟨now, rfl, hplace.1, hplace.2, decodeAt_noHalt_iff hplace.1, ?_, ?_⟩
    · intro error herror
      rw [Engine.step, herror]
      exact congrArg Effect.reply (Engine.reject_eq now (utf8 "FETCH") error)
    · intro i hi
      obtain ⟨action, _, haction, _⟩ := exists_action_of_decodeAt hi
      refine ⟨(toInt_behind hlen hi).1, action, haction, ?_⟩
      intro error free herror
      cases hsteps.stepError free hidle herror with
      | fetch unread =>
        rw [hi] at unread
        cases unread
      | fault read fits named fault =>
        rw [hi] at read
        cases read
        rw [haction] at fits
        cases fits
        exact ⟨named, fault⟩
  · intro ω react patience depth observers calls hp hover
    have hstart : Session.Follows code e ({ engine := e, observers } : Session ω) :=
      ⟨hbase.toAtRest, ⟨[], by simp, rfl⟩, by simp⟩
    obtain ⟨hfollows, herrors⟩ := Session.converse_follows hlen hbase hp patience depth hover hstart
    exact ⟨_, _, rfl, hfollows.rest, hfollows.reached, hfollows.told, herrors⟩

/-- After a reset, the first instruction of four bytes branches far behind them, and no halt is found there; a run and a
step that an observer listens to end in the same place. -/
theorem program_stays_in_bounds_far :
    ∃ code e now, code = [Opcode.ifEq.code, 0, 0, 200] ∧ (code.length : Int) < 2 ^ 63 ∧
      e = ((Moment.start {}).after overTheTop).engine.reset.engine ∧ e.AtBaseline ∧
      now = ((Moment.mk e []).after [.call (.step code), .settle]).engine ∧ now.ip.toInt = 200 ∧
      now.ip.toInt ≤ max code.length 255 ∧ (∃ error, decodeAt code now.ip = .error error ∧ error.kind = .noHalt) ∧
      ∃ s answers, Session.converse (fun observer _ => (observer, [])) 5 0 { engine := e, observers := [()] }
          [.run code none, .command (.step code)] = (s, answers) ∧ s.engine.AtRest ∧ answers.length = 2 ∧
        ∀ error, .reply (.error (.engine error)) ∈ answers → ProgramError code error := by
  have hbase := Engine.atBaseline_reset ((Moment.start {}).after overTheTop).engine
  obtain ⟨hmoments, hsessions⟩ := program_stays_in_bounds [Opcode.ifEq.code, 0, 0, 200] (by decide) _ hbase
  obtain ⟨now, hnow, _, hle, hend, _⟩ :=
    hmoments [.call (.step [Opcode.ifEq.code, 0, 0, 200]), .settle] (by simp [Move.Over])
  have hip : now.ip.toInt = 200 := by
    rw [hnow]
    decide +kernel
  have hbehind : (([Opcode.ifEq.code, 0, 0, 200] : Bytes).length : Int) ≤ now.ip.toInt := by
    rw [hip]
    decide
  obtain ⟨s, answers, hconverse, hrest, _, _, herrors⟩ := hsessions Unit (fun observer _ => (observer, [])) 5 0 [()]
    [.run [Opcode.ifEq.code, 0, 0, 200] none, .command (.step [Opcode.ifEq.code, 0, 0, 200])] (fun _ _ => rfl)
    (by simp [Call.Over])
  have hlength : answers.length = 2 := congrArg (fun done => done.2.length) hconverse.symm
  exact ⟨_, _, now, rfl, by decide, rfl, hbase, hnow, hip, hle, hend.mpr hbehind, s, answers, hconverse, hrest, hlength,
    herrors⟩

end StackMachine
