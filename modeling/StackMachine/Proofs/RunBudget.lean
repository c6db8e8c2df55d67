import StackMachine.Proofs.Bookkeeping
import StackMachine.Proofs.ByteForm
import StackMachine.Proofs.FailedCalls

namespace StackMachine

/-- Whether a run ends with a step that is so answered. -/
def Answer.isFinal : Answer → Bool
  | .reply (.error _) => true
  | .reply (.ok (.committed result)) => result.halted
  | _ => false

theorem decodeAt_first {code : Bytes} {ip : Int64} {i : Instruction} (h : decodeAt code ip = .ok i) :
    0 ≤ ip.toInt ∧ ip.toInt < code.length ∧ code[ip.toInt.toNat]? = some i.op.code := by
  obtain ⟨hnonneg, hsize, hencoded⟩ := encodeInstruction_decoded h
  obtain ⟨op, bytes, hop, _, hbytes⟩ := encodeInstruction_eq_ok_iff.mp hencoded
  have hpos : 0 < i.op.size := by
    rw [Opcode.size_eq]
    omega
  refine ⟨hnonneg, by omega, ?_⟩
  have hfirst : ((code.drop ip.toInt.toNat).take i.op.size)[0]? = some i.op.code := by
    rw [hbytes]
    rfl
  rw [List.getElem?_take_of_lt hpos, List.getElem?_drop, Nat.add_zero] at hfirst
  exact hfirst

namespace Engine

variable {e : Engine} {code : Bytes} {result : Result}

/-- A step that succeeds carries out the instruction at the pointer. -/
theorem step_carried_out (h : (e.begin (.step code)).reply = .ok (.committed result)) :
    ∃ i action t, decodeAt code e.ip = .ok i ∧ Action.ofOperands i.op i.operands = .ok action ∧
      e.machine.plan e.latch action = .ok t ∧ result = (e.machine.commit t).2 ∧ e.busy = false ∧
      (e.perform (.step code)).engine =
        { e with machine := (e.machine.commit t).1, stats := e.stats.map (·.commit t.op) } := by
  have hb := e.begin_begins (.step code)
  unfold Engine.perform
  generalize e.begin (.step code) = effect at h hb
  cases hb with
  | refused | rejected => cases h
  | executed free _ _ asked planned =>
    cases h
    cases hd : decodeAt code e.ip with
    | error error =>
      rw [instruction?, hd] at asked
      cases asked
    | ok i =>
      rw [instruction?, hd] at asked
      cases asked
      obtain ⟨op, action, hcode, haction, hplan⟩ := plan_eq_ok planned
      rw [Opcode.ofCode?_code] at hcode
      cases hcode
      exact ⟨i, action, _, rfl, haction, hplan, rfl, free, settle_afterTransaction free _⟩

/-- A step that halts stands on the halting instruction and stays there. -/
theorem step_halted (h : (e.begin (.step code)).reply = .ok (.committed result)) (halted : result.halted = true) :
    result.op = .hlt ∧ (e.perform (.step code)).engine.ip = e.ip ∧ 0 ≤ e.ip.toInt ∧ e.ip.toInt < code.length ∧
      code[e.ip.toInt.toNat]? = some Opcode.hlt.code := by
  obtain ⟨i, action, t, hd, haction, hplan, rfl, _, hengine⟩ := step_carried_out h
  obtain ⟨hop, hhalts, hnext⟩ := Machine.plan_course hplan
  obtain rfl : action = .halt := hhalts.mp halted
  have hi : Opcode.hlt = i.op := (Action.canonical_of_ofOperands haction).1
  have hip : (e.perform (.step code)).engine.ip = e.ip := by
    rw [hengine, Engine.ip, Machine.ip_commit, hnext]
    rfl
  have hfirst := decodeAt_first hd
  rw [← hi] at hfirst
  exact ⟨hop, hip, hfirst⟩

theorem isLimited_iff : e.isLimited = true ↔ 0 < e.maxSteps.toInt ∧ e.maxSteps.toInt < 2 ^ 63 - 1 := by
  rw [isLimited, decide_eq_true_eq, Int64.lt_iff_toInt_lt, Int64.lt_iff_toInt_lt]
  rfl

theorem settled_spendLimit (free : e.busy = false) :
    e.spendLimit.settled =
      ⟨{ e with stats := e.stats.map Stats.reject }, .error ⟨[], .stepsSpent e.maxSteps⟩,
        [.error (utf8 "RUN") (Error.body ⟨[], .stepsSpent e.maxSteps⟩)],
        [.rejected (some (utf8 "RUN")) ⟨[], .stepsSpent e.maxSteps⟩]⟩ := by
  rw [← settle_afterRejection free, spendLimit, reject_eq, free]
  rfl

end Engine

namespace Session

variable {ω : Type} {react : Reaction ω} {patience depth : Nat} {code : Bytes} {s : Session ω}

def limited (n : Int64) (s : Session ω) : Session ω := { s with engine := { s.engine with maxSteps := n } }

/-- The step with this number, counted from one, is the first that halts or fails. -/
def StopsAt (react : Reaction ω) (patience depth : Nat) (code : Bytes) (s : Session ω) (k : Nat) (final : Session ω)
    (answer : Answer) : Prop :=
  ∃ results before, k = results.length + 1 ∧ s.StepsTo react patience depth code results before ∧
    before.perform react patience depth (.command (.step code)) = (final, answer) ∧ answer.isFinal = true

/-- Steps that all succeed begin a run, which goes on from where they lead. -/
theorem StepsTo.runs {nested : Session ω → List (Call ω) → Session ω} {results : List Result} {before t : Session ω}
    {rest taken : Nat} {reply : Except Failure Result}
    (hperform : ∀ s call, perform react patience depth s call = s.answer react nested patience call)
    (h : s.StepsTo react patience depth code results before)
    (hlater : Runs react nested code none rest (taken + results.length) before t reply) :
    Runs react nested code none (results.length + rest) taken s t reply := by
  induction results generalizing s taken with
  | nil =>
    obtain rfl : s = before := congrArg Prod.fst h.1
    rw [List.length_nil, Nat.zero_add]
    exact hlater
  | cons result results ih =>
    obtain ⟨next, hstep, running, hsteps⟩ := h.uncons
    rw [List.length_cons, Nat.add_comm results.length 1, ← Nat.add_assoc] at hlater
    rw [List.length_cons, Nat.add_right_comm]
    exact .onward rfl (carryOut_of_perform_ok hperform hstep) running (ih hsteps hlater)

/-- A step that halts or fails ends a run, and its answer is that of the run. -/
theorem runEnds_final {nested : Session ω → List (Call ω) → Session ω} {final : Session ω} {answer : Answer}
    (hperform : ∀ s call, perform react patience depth s call = s.answer react nested patience call)
    (hstep : s.perform react patience depth (.command (.step code)) = (final, answer))
    (hfinal : answer.isFinal = true) :
    ∃ reply, answer = .reply (reply.map .committed) ∧ ∀ rest taken,
      RunEnds engine (carryOut react nested) code none (rest + 1) taken s final reply := by
  rw [perform_step hperform] at hstep
  obtain ⟨t, reply, he⟩ : ∃ t reply, s.carryOut react nested (s.engine.step code) = (t, reply) := ⟨_, _, rfl⟩
  rw [he] at hstep
  cases hstep
  cases reply with
  | error error => exact ⟨_, rfl, fun _ _ => .failed rfl he⟩
  | ok result => exact ⟨_, rfl, fun _ _ => .halted rfl he hfinal⟩

theorem perform_run_stops {k : Nat} {final : Session ω} {answer : Answer}
    (h : s.StopsAt react patience depth code k final answer) (hk : k ≤ s.engine.allowance patience) :
    s.perform react patience depth (.run code none) = (final, answer) := by
  obtain ⟨nested, _, hperform⟩ := perform_eq_answer react patience depth
  obtain ⟨results, before, rfl, hsteps, hstep, hfinal⟩ := h
  obtain ⟨rest, hrest⟩ := Nat.exists_eq_add_of_le hk
  obtain ⟨reply, rfl, hends⟩ := runEnds_final hperform hstep hfinal
  have hruns := hsteps.runs hperform (.ends (hends rest (0 + results.length)))
  rw [← Nat.add_assoc, Nat.add_right_comm, ← hrest] at hruns
  rw [hperform, answer, hruns.eq]

theorem step_final_or_running (react : Reaction ω) (patience depth : Nat) (code : Bytes) (s : Session ω) :
    (s.perform react patience depth (.command (.step code))).2.isFinal = true ∨
      ∃ t result, s.perform react patience depth (.command (.step code)) = (t, .reply (.ok (.committed result))) ∧
        ¬ result.halted = true := by
  obtain ⟨nested, _, hperform⟩ := perform_eq_answer react patience depth
  rw [perform_step hperform]
  obtain ⟨t, reply, he⟩ : ∃ t reply, s.carryOut react nested (s.engine.step code) = (t, reply) := ⟨_, _, rfl⟩
  rw [he]
  cases reply with
  | error error => exact .inl rfl
  | ok result =>
    by_cases halted : result.halted = true
    · exact .inl halted
    · exact .inr ⟨t, result, rfl, halted⟩

/-- Within any number of steps one halts or fails, or all of them succeed. -/
theorem stopsAt_or_stepsTo (react : Reaction ω) (patience depth : Nat) (code : Bytes) (s : Session ω) (n : Nat) :
    (∃ k final answer, k ≤ n ∧ s.StopsAt react patience depth code k final answer) ∨
      ∃ results before, results.length = n ∧ s.StepsTo react patience depth code results before := by
  -- on the number of steps: the first one is final, or the others go on from where it led
  induction n generalizing s with
  | zero => exact .inr ⟨[], s, rfl, .nil s code⟩
  | succ n ih =>
    rcases step_final_or_running react patience depth code s with hfinal | ⟨t, result, hstep, running⟩
    · exact .inl ⟨1, _, _, by omega, [], s, rfl, .nil s code, rfl, hfinal⟩
    · rcases ih t with ⟨k, final, answer, hk, results, before, rfl, hsteps, hlast⟩ | ⟨results, before, hn, hsteps⟩
      · exact .inl ⟨_, final, answer, Nat.succ_le_succ hk, result :: results, before, rfl,
          .cons hstep running hsteps, hlast⟩
      · exact .inr ⟨result :: results, before, by rw [List.length_cons, hn], .cons hstep running hsteps⟩

section Passive

variable (hp : react.Passive)

include hp

/-- A command does not see the step limit, nor how patient and deep the session is. -/
theorem perform_command_limited (n : Int64) (patience' depth' : Nat) (s : Session ω) (c : Command) :
    (s.limited n).perform react patience' depth' (.command c) =
      ((s.perform react patience depth (.command c)).1.limited n,
        (s.perform react patience depth (.command c)).2) := by
  obtain ⟨e', reply, events, log, resets, entry, h⟩ := s.engine.oblivious_begin c
  have hs : s.engine.perform c = _ := h s.engine.generation s.engine.maxSteps s.engine.stats
  have hn : (s.limited n).engine.perform c = _ := h s.engine.generation n s.engine.stats
  rw [perform_command_passive hp, perform_command_passive hp, ← Effect.settled_reply, ← Effect.settled_reply]
  have hsr : (s.engine.begin c).settled = _ := hs
  have hnr : ((s.limited n).engine.begin c).settled = _ := hn
  rw [hs, hn, hsr, hnr]
  rfl

theorem StepsTo.limited (n : Int64) (patience' depth' : Nat) {results : List Result} {before : Session ω}
    (h : s.StepsTo react patience depth code results before) :
    (s.limited n).StepsTo react patience' depth' code results (before.limited n) := by
  induction results generalizing s with
  | nil =>
    have hs : s = before := congrArg Prod.fst h.1
    rw [hs]
    exact .nil _ code
  | cons result results ih =>
    obtain ⟨t, hstep, running, hlater⟩ := h.uncons
    refine .cons ?_ (by simp [running]) (ih hlater)
    rw [perform_command_limited hp, hstep]

theorem StopsAt.limited (n : Int64) (patience' depth' : Nat) {k : Nat} {final : Session ω} {answer : Answer}
    (h : s.StopsAt react patience depth code k final answer) :
    (s.limited n).StopsAt react patience' depth' code k (final.limited n) answer := by
  obtain ⟨results, before, hk, hsteps, hstep, hfinal⟩ := h
  refine ⟨results, before.limited n, hk, hsteps.limited hp n patience' depth', ?_, hfinal⟩
  rw [perform_command_limited hp, hstep]

theorem StepsTo.free {results : List Result} {before : Session ω} (h : s.StepsTo react patience depth code results before)
    (hne : results ≠ []) : before.engine.busy = false := by
  induction results generalizing s with
  | nil => exact absurd rfl hne
  | cons result results ih =>
    obtain ⟨t, hstep, _, hlater⟩ := h.uncons
    cases results with
    | cons later results => exact ih hlater (by simp)
    | nil =>
      -- the last of the steps found the engine free, and its notice is over
      have ht : t = before := congrArg Prod.fst hlater.1
      have hanswer := congrArg Prod.snd hstep
      have hengine := congrArg (fun done => done.1.engine) hstep
      obtain ⟨_, _, _, _, _, _, _, free, hafter⟩ := Engine.step_carried_out (reply_of_perform_ok hanswer)
      rw [perform_command_passive hp] at hengine
      dsimp only [listened] at hengine
      rw [← ht, ← hengine, hafter]
      exact free

theorem perform_run_limit {results : List Result} {before : Session ω} {n : Int64}
    (limit : (s.limited n).engine.isLimited = true) (h : s.StepsTo react patience depth code results before)
    (hn : results.length = n.toInt.toNat) (patience' : Nat) :
    (before.limited n).engine.busy = false ∧
      (s.limited n).perform react patience' depth (.run code none) =
        ((before.limited n).listened react (before.limited n).engine.spendLimit.settled,
          .reply (.error (.engine ⟨[], .stepsSpent n⟩))) := by
  have hpos : 0 < n.toInt := (Engine.isLimited_iff.mp limit).1
  have hne : results ≠ [] := by
    intro hnil
    rw [hnil, List.length_nil] at hn
    omega
  have free : (before.limited n).engine.busy = false := h.free hp hne
  obtain ⟨nested, hnested, hperform⟩ := perform_eq_answer react patience' depth
  have hspent : RunEnds engine (carryOut react nested) code none 0 (0 + results.length) (before.limited n) _ _ :=
    .spent rfl limit (carryOut_spend_passive hp hnested (before.limited n))
  have hruns := (h.limited hp n patience' depth).runs hperform (.ends hspent)
  have hallowance : results.length + 0 = (s.limited n).engine.allowance patience' := by
    rw [Nat.add_zero, hn, Engine.allowance, if_pos limit]
    rfl
  rw [hallowance] at hruns
  refine ⟨free, ?_⟩
  rw [hperform, answer, hruns.eq, Engine.spendLimit, Engine.reject_eq]
  rfl

/-- A run that succeeds ends with a step that halts. -/
theorem perform_run_halted {result : Result}
    (h : (s.perform react patience depth (.run code none)).2 = .reply (.ok (.committed result))) :
    ∃ before : Session ω, (before.engine.begin (.step code)).reply = .ok (.committed result) ∧ result.halted = true ∧
      (s.perform react patience depth (.run code none)).1.engine = (before.engine.perform (.step code)).engine := by
  obtain ⟨nested, hnested, hperform⟩ := perform_eq_answer react patience depth
  obtain ⟨t, reply, hruns, hanswer⟩ := answer_run react nested patience s code none
  obtain ⟨_, before, _, _, _, _, hends⟩ := hruns.stepsTo hperform
  rw [hperform, hanswer] at h ⊢
  cases hends with
  | halted _ hcarry halts =>
    cases h
    have hstep : before.perform react patience depth (.command (.step code)) =
        (t, .reply (.ok (.committed result))) := by
      rw [perform_step hperform, hcarry]
      rfl
    refine ⟨before, reply_of_perform_ok (congrArg Prod.snd hstep), halts, ?_⟩
    rw [perform_command_passive hp] at hstep
    exact (congrArg (fun done => done.1.engine) hstep).symm
  | spent _ _ hcarry =>
    have hreply := congrArg Prod.snd hcarry
    rw [carryOut_reply, Engine.spendLimit, Engine.reject_eq] at hreply
    cases hreply
    cases h
  | interrupted | unfinished | failed => cases h

end Passive

end Session

/-- A run comes to the same as taking its steps one after the other until one halts or fails, for every limit that
reaches so far and for none. Under a limit that does not reach so far it carries out as many instructions as the limit
says, and is then rejected. A run that succeeds ends on a halting instruction. -/
theorem run_iterates_steps {ω : Type} {react : Reaction ω} (hp : react.Passive) (patience depth : Nat) (s : Session ω)
    (code : Bytes) :
    (∀ k final answer, s.StopsAt react patience depth code k final answer →
      ∀ (n : Int64) (patience' : Nat), (if 0 < n.toInt ∧ n.toInt < 2 ^ 63 - 1 then k ≤ n.toInt else k ≤ patience') →
        (s.limited n).perform react patience' depth (.run code none) = (final.limited n, answer)) ∧
    (∀ n : Int64, 0 < n.toInt → n.toInt < 2 ^ 63 - 1 →
        (∀ k final answer, s.StopsAt react patience depth code k final answer → n.toInt < k) →
      ∃ results before, (results.length : Int) = n.toInt ∧ s.StepsTo react patience depth code results before ∧
        ∀ patience' : Nat,
          let done := (s.limited n).perform react patience' depth (.run code none)
          done.2 = .reply (.error (.engine ⟨[], .stepsSpent n⟩)) ∧ (Cause.stepsSpent n).kind = .stepLimit ∧
          done.1.engine = { before.engine with maxSteps := n, stats := before.engine.stats.map Stats.reject } ∧
          done.1.told = before.told ++
            broadcast before.observers.length [.error (utf8 "RUN") (Error.body ⟨[], .stepsSpent n⟩)]) ∧
    (∀ (n : Int64) (patience' : Nat) (result : Result),
      let done := (s.limited n).perform react patience' depth (.run code none)
      done.2 = .reply (.ok (.committed result)) →
        result.halted = true ∧ result.op = .hlt ∧ 0 ≤ done.1.engine.ip.toInt ∧
        done.1.engine.ip.toInt < code.length ∧ code[done.1.engine.ip.toInt.toNat]? = some Opcode.hlt.code) := by
  refine ⟨?_, ?_, ?_⟩
  · intro k final answer hstops n patience' hreach
    apply Session.perform_run_stops (hstops.limited hp n patience' depth)
    unfold Engine.allowance
    split
    next hlimit =>
      have hrange : 0 < n.toInt ∧ n.toInt < 2 ^ 63 - 1 := Engine.isLimited_iff.mp hlimit
      rw [if_pos hrange] at hreach
      show k ≤ n.toInt.toNat
      omega
    next hnone =>
      have hrange : ¬ (0 < n.toInt ∧ n.toInt < 2 ^ 63 - 1) := fun hrange => hnone (Engine.isLimited_iff.mpr hrange)
      rw [if_neg hrange] at hreach
      exact hreach
  · intro n hpos hlimit hbeyond
    rcases Session.stopsAt_or_stepsTo react patience depth code s n.toInt.toNat with
      ⟨k, final, answer, hk, hstops⟩ | ⟨results, before, hlength, hsteps⟩
    · have hlt := hbeyond k final answer hstops
      omega
    · refine ⟨results, before, by omega, hsteps, ?_⟩
      intro patience'
      obtain ⟨free, hrun⟩ := Session.perform_run_limit hp (Engine.isLimited_iff.mpr ⟨hpos, hlimit⟩) hsteps
        hlength patience'
      rw [hrun, Engine.settled_spendLimit free]
      exact ⟨rfl, rfl, rfl, rfl⟩
  · intro n patience' result done hdone
    obtain ⟨before, hreply, halted, hengine⟩ := Session.perform_run_halted hp hdone
    obtain ⟨hop, hip, hplace⟩ := Engine.step_halted hreply halted
    have hdoneip : done.1.engine.ip = before.engine.ip := by
      rw [← hip, ← hengine]
    rw [hdoneip]
    exact ⟨halted, hop, hplace⟩

/-- A limit of one reaches a halt at the start, and ends a run that goes on after its first instruction. -/
theorem run_iterates_steps_one :
    ∃ (react : Reaction Unit) (s : Session Unit), react = (fun observer _ => (observer, [])) ∧
      s = Session.opened {} [()] ∧
      (∃ final answer, s.StopsAt react 0 0 [Opcode.hlt.code] 1 final answer ∧
        (s.limited 1).perform react 0 0 (.run [Opcode.hlt.code] none) = (final.limited 1, answer)) ∧
      0 ≤ ((s.limited 1).perform react 0 0 (.run [Opcode.hlt.code] none)).1.engine.ip.toInt ∧
      ((s.limited 1).perform react 0 0 (.run [Opcode.nop.code] none)).2 =
        .reply (.error (.engine ⟨[], .stepsSpent 1⟩)) := by
  refine ⟨_, _, rfl, rfl, ?_⟩
  generalize hreact : (fun observer _ => (observer, []) : Reaction Unit) = react
  generalize hs : Session.opened {} [()] = s
  have hp : Reaction.Passive react := by
    subst hreact
    exact fun _ _ => rfl
  have hhalt : (s.perform react 0 0 (.command (.step [Opcode.hlt.code]))).2 =
      .reply (.ok (.committed ⟨.hlt, [], [], 0, true, utf8 "halted"⟩)) := by
    subst hs
    rw [Session.perform_command_reply]
    rfl
  have hpass : (s.perform react 0 0 (.command (.step [Opcode.nop.code]))).2 =
      .reply (.ok (.committed ⟨.nop, [], [], 1, false, utf8 "no operation"⟩)) := by
    subst hs
    rw [Session.perform_command_reply]
    rfl
  obtain ⟨hreach, _, hends⟩ := run_iterates_steps hp 0 0 s [Opcode.hlt.code]
  obtain ⟨_, hspent, _⟩ := run_iterates_steps hp 0 0 s [Opcode.nop.code]
  obtain ⟨final, answer, hstep⟩ :
      ∃ final answer, s.perform react 0 0 (.command (.step [Opcode.hlt.code])) = (final, answer) := ⟨_, _, rfl⟩
  rw [hstep] at hhalt
  have hstops : s.StopsAt react 0 0 [Opcode.hlt.code] 1 final answer :=
    ⟨[], s, rfl, .nil s _, hstep, congrArg Answer.isFinal hhalt⟩
  have hrun := hreach 1 _ _ hstops 1 0 (by decide)
  refine ⟨⟨final, answer, hstops, hrun⟩, (hends 1 0 _ ((congrArg Prod.snd hrun).trans hhalt)).2.2.1, ?_⟩
  have hbeyond : ∀ k final answer, s.StopsAt react 0 0 [Opcode.nop.code] k final answer → (1 : Int64).toInt < k := by
    rintro k final answer ⟨results, before, rfl, hsteps, hlast, hfinal⟩
    cases results with
    | nil =>
      have hbefore : s = before := congrArg Prod.fst hsteps.1
      have hanswer := congrArg Prod.snd hlast
      rw [← hbefore, hpass] at hanswer
      cases hanswer
      cases hfinal
    | cons result results =>
      rw [List.length_cons, show (1 : Int64).toInt = 1 from rfl]
      omega
  obtain ⟨_, _, _, _, hdone⟩ := hspent 1 (by decide) (by decide) hbeyond
  exact (hdone 0).1

end StackMachine
