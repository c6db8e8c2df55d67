import StackMachine.Proofs.Bookkeeping
import StackMachine.Proofs.Invariant
import StackMachine.Proofs.TwoPhase

namespace StackMachine

namespace Engine

variable {o : Options} {e e' : Engine}

/-- Engines with the same step limit, both with counters or both without, that agree in all but their books. -/
def Alike (e e' : Engine) : Prop :=
  ∃ generation stats, e' = e.booked generation e.maxSteps stats ∧ stats.isSome = e.stats.isSome

theorem Alike.settled {α : Type} {call : Engine → Effect α} (h : e.Alike e') (hc : e.Oblivious call) :
    (call e).settled.engine.Alike (call e').settled.engine ∧ (call e').settled.reply = (call e).settled.reply ∧
      (call e').settled.events = (call e).settled.events ∧ (call e').settled.log = (call e).settled.log := by
  obtain ⟨generation, stats, rfl, hstats⟩ := h
  obtain ⟨after, reply, events, log, resets, entry, hc⟩ := hc
  have he : (call e).settled = _ := hc e.generation e.maxSteps e.stats
  rw [he, hc generation e.maxSteps stats]
  refine ⟨⟨generation + resets, stats.map entry, rfl, ?_⟩, rfl, rfl, rfl⟩
  simp only [booked, Option.isSome_map, hstats]

/-- What an engine is set up with and never changes. -/
def SetUp (o : Options) (e : Engine) : Prop := e.maxSteps = o.maxSteps ∧ e.stats.isSome = o.stats

theorem SetUp.begins {c : Command} {effect : Effect Reply} (h : e.SetUp o) (hb : e.Begins c effect) :
    effect.engine.SetUp o := by
  obtain ⟨hlimit, hstats⟩ := h
  cases hb with
  | refused | nothing | announced | reset => exact ⟨hlimit, hstats⟩
  | rejected | executed | committed => exact ⟨hlimit, by rw [← hstats]; exact Option.isSome_map⟩

theorem SetUp.settle (h : e.SetUp o) (generation : Nat) : (e.settle generation).SetUp o := by
  unfold Engine.settle
  split
  next => exact h
  next => exact h

theorem setUp_next {m : Moment} (move : Move) (h : m.engine.SetUp o) : (m.next move).engine.SetUp o := by
  cases move with
  | call c => exact h.begins (m.engine.begin_begins c)
  | spend =>
    rw [Moment.next_spend_engine]
    exact ⟨h.1, by rw [← h.2]; exact Option.isSome_map⟩
  | settle =>
    cases hn : m.notices with
    | nil => rw [Moment.next_settle_nil hn]; exact h
    | cons notice rest => rw [Moment.next_settle_cons hn]; exact h.settle notice.generation

theorem Reachable.setUp (hr : e.Reachable o) : e.SetUp o := by
  obtain ⟨notices, moves, hm⟩ := hr
  have hstart : (Moment.start o).engine.SetUp o := by
    refine ⟨rfl, ?_⟩
    cases ho : o.stats <;> simp [Moment.start, ofOptions, ho]
  have hafter : ((Moment.start o).after moves).engine.SetUp o :=
    Moment.after_keeps (P := fun m => m.engine.SetUp o) (fun move _ _ h => setUp_next move h) hstart
  rw [hm] at hafter
  exact hafter

/-- The values that a stack held leave no trace in the baseline. -/
theorem Valid.baseline_eq (hv : e.Valid o) : Machine.baseline e.machine.stack = .baseline (.empty o.capacity) := by
  obtain ⟨vs, hfit, hs⟩ := hv.machine.stack.exists_values
  have hcapacity : e.machine.stack.capacity = Stack.capacityFor o.capacity := hv.capacity_eq
  unfold Machine.baseline
  rw [hs, Stack.reset_ofValues hfit, hcapacity, Stack.empty_eq_ofValues, Stack.reset_ofValues (by simp)]

theorem Reachable.alike_reset (hr : e.Reachable o) : (ofOptions o).Alike e.reset.engine := by
  obtain ⟨hlimit, hstats⟩ := hr.setUp
  refine ⟨e.generation + 1, e.stats, ?_, ?_⟩
  · have hmachine := hr.valid.baseline_eq
    have hlatch := hr.valid.latch_eq
    simp only [reset, booked, ofOptions, hmachine, hlatch, hlimit]
  · rw [hstats]
    cases ho : o.stats <;> simp [ofOptions, ho]

end Engine

/-- Equal answers, save that counters may stand at other numbers. -/
inductive Answer.Agree : Answer → Answer → Prop
  | same (a : Answer) : Agree a a
  | stats {counted counted' : Option Stats} : counted'.isSome = counted.isSome →
      Agree (.stats counted) (.stats counted')

namespace Session

variable {ω : Type}

/-- Sessions of which the second shows what the first does, after something that was told and logged before. -/
structure Alike (told : Array (Nat × Event)) (log : Array LogEntry) (s s' : Session ω) : Prop where
  engine : s.engine.Alike s'.engine
  observers : s'.observers = s.observers
  told : s'.told = told ++ s.told
  log : s'.log = log ++ s.log

variable {told : Array (Nat × Event)} {log : Array LogEntry} {s s' : Session ω}

theorem Alike.listened {α : Type} {done done' : Outcome α} (react : Reaction ω) (h : s.Alike told log s')
    (hengine : done.engine.Alike done'.engine) (hevents : done'.events = done.events) (hlog : done'.log = done.log) :
    (s.listened react done).Alike told log (s'.listened react done') := by
  refine ⟨hengine, ?_, ?_, ?_⟩
  · simp only [Session.listened, h.observers, hevents]
  · simp only [Session.listened, h.told, h.observers, hevents]
    apply Array.toList_inj.mp
    simp
  · simp only [Session.listened, h.log, hlog]
    apply Array.toList_inj.mp
    simp

theorem Alike.maxSteps_eq (h : s.Alike told log s') : s'.engine.maxSteps = s.engine.maxSteps := by
  obtain ⟨_, _, he, _⟩ := h.engine
  rw [he]
  rfl

section Passive

variable {react : Reaction ω} {nested : Session ω → List (Call ω) → Session ω} (hp : react.Passive)
  (hn : ∀ s, nested s [] = s)

include hp hn

theorem Alike.carryOut {α : Type} {call : Engine → Effect α} (h : s.Alike told log s')
    (hcall : s.engine.Oblivious call)
    (current : ∀ e notice, (call e).notice = some notice → notice.generation = (call e).engine.generation) :
    (s.carryOut react nested (call s.engine)).1.Alike told log (s'.carryOut react nested (call s'.engine)).1 ∧
      (s'.carryOut react nested (call s'.engine)).2 = (s.carryOut react nested (call s.engine)).2 := by
  obtain ⟨hengine, hreply, hevents, hlog⟩ := h.engine.settled hcall
  rw [carryOut_passive hp hn s (current s.engine), carryOut_passive hp hn s' (current s'.engine)]
  rw [Effect.settled_reply, Effect.settled_reply] at hreply
  exact ⟨h.listened react hengine hevents hlog, hreply⟩

theorem Alike.runs {code : Bytes} {context : Context} {left taken : Nat} {t : Session ω}
    {reply : Except Failure Result} (h : s.Alike told log s')
    (hruns : Runs react nested code context left taken s t reply) :
    ∃ t', Runs react nested code context left taken s' t' reply ∧ t.Alike told log t' := by
  refine RunsTo.related ?_ ?_ ?_ h hruns
  · exact fun h => Engine.isLimited_congr h.maxSteps_eq
  · intro s s' h
    -- the error of a spent limit names the limit, which is the same in both
    have hspent := h.carryOut (α := Result) hp hn
      (s.engine.oblivious_reject (utf8 "RUN") ⟨[], .stepsSpent s.engine.maxSteps⟩)
      fun e notice hnotice => (Engine.reject_notice_current hnotice).1
    rw [Engine.spendLimit, Engine.spendLimit, h.maxSteps_eq]
    exact hspent
  · exact fun h => h.carryOut hp hn (Engine.oblivious_step _ code) fun e notice hnotice =>
      (Engine.step_notice_current hnotice).1

theorem Alike.answer (h : s.Alike told log s') (patience : Nat) (call : Call ω) :
    (s.answer react nested patience call).1.Alike told log (s'.answer react nested patience call).1 ∧
      (s.answer react nested patience call).2.Agree (s'.answer react nested patience call).2 := by
  cases call with
  | command c =>
    obtain ⟨halike, hreply⟩ := h.carryOut hp hn (s.engine.oblivious_begin c) fun e notice hnotice =>
      ((e.begin_begins c).notice_current hnotice).1
    refine ⟨halike, ?_⟩
    simp only [Session.answer, hreply]
    exact .same _
  | run code context =>
    obtain ⟨t, reply, hruns, hanswer⟩ := answer_run react nested patience s code context
    obtain ⟨t', hruns', ht⟩ := h.runs hp hn hruns
    rw [← Engine.allowance_congr h.maxSteps_eq] at hruns'
    rw [hanswer, Session.answer, hruns'.eq]
    exact ⟨ht, .same _⟩
  | register name =>
    obtain ⟨_, _, he, _⟩ := h.engine
    refine ⟨h, ?_⟩
    simp only [Session.answer, he]
    exact .same _
  | status =>
    obtain ⟨_, _, he, _⟩ := h.engine
    refine ⟨h, ?_⟩
    simp only [Session.answer, he]
    exact .same _
  | stats =>
    obtain ⟨_, _, he, hstats⟩ := h.engine
    refine ⟨h, .stats ?_⟩
    rw [he]
    exact hstats
  | attach observer => exact ⟨⟨h.engine, congrArg (· ++ [observer]) h.observers, h.told, h.log⟩, .same _⟩

end Passive

theorem Alike.converse {react : Reaction ω} (hp : react.Passive) (patience depth : Nat) (h : s.Alike told log s')
    (calls : List (Call ω)) :
    (s.converse react patience depth calls).1.Alike told log (s'.converse react patience depth calls).1 ∧
      List.Forall₂ Answer.Agree (s.converse react patience depth calls).2
        (s'.converse react patience depth calls).2 := by
  obtain ⟨nested, hn, hperform⟩ := perform_eq_answer react patience depth
  induction calls generalizing s s' with
  | nil => exact ⟨h, .nil⟩
  | cons call calls ih =>
    obtain ⟨halike, hanswer⟩ := h.answer hp hn patience call
    rw [← hperform, ← hperform] at halike hanswer
    obtain ⟨hlater, hanswers⟩ := ih halike
    exact ⟨hlater, .cons hanswer hanswers⟩

theorem alike_reset {o : Options} {react : Reaction ω} (hp : react.Passive) (patience depth : Nat)
    (hr : s.engine.Reachable o) :
    (opened o s.observers).Alike s.told (s.perform react patience depth (.command .reset)).1.log
      (s.perform react patience depth (.command .reset)).1 := by
  rw [perform_command_passive hp]
  refine ⟨hr.alike_reset, informed_nil s.observers, ?_, ?_⟩
  · simp [Session.listened, opened, broadcast, Engine.perform, Engine.begin, Engine.reset, Effect.map, Effect.settled]
  · simp [opened]

end Session

/-- After a reset, and with observers that only listen, every sequence of calls is answered as by a new session with the
same options and observers, shows the same registers, cells and phase, and tells the same. Only counters differ. -/
theorem reset_starts_afresh {ω : Type} {o : Options} {react : Reaction ω} {s : Session ω} (hp : react.Passive)
    (hr : s.engine.Reachable o) (patience depth : Nat) (calls : List (Call ω)) :
    let renewed := (s.perform react patience depth (.command .reset)).1
    let later := renewed.converse react patience depth calls
    let fresh := (Session.opened o s.observers).converse react patience depth calls
    List.Forall₂ Answer.Agree fresh.2 later.2 ∧ later.1.engine.snapshot = fresh.1.engine.snapshot ∧
      later.1.told = s.told ++ fresh.1.told ∧ later.1.observers = fresh.1.observers ∧
      later.1.log = renewed.log ++ fresh.1.log := by
  intro renewed later fresh
  obtain ⟨halike, hanswers⟩ := (Session.alike_reset hp patience depth hr).converse hp patience depth calls
  have hsnapshot : later.1.engine.snapshot = fresh.1.engine.snapshot := by
    obtain ⟨_, _, he, _⟩ := halike.engine
    rw [he]
    rfl
  exact ⟨hanswers, hsnapshot, halike.told, halike.observers, halike.log⟩

/-- A value is on the stack and its removal is announced; after a reset there is nothing to commit, as at the start. -/
theorem reset_starts_afresh_announced :
    ∃ (react : Reaction Unit) (s : Session Unit), react = (fun observer _ => (observer, [])) ∧
      s = ((Session.opened {} [()]).converse react 0 0
        [.command (.execute (utf8 "PSH") [.imm 7]), .command (.announce (utf8 "POP") [])]).1 ∧
      s.engine.phase = .awaitingCommit ∧ s.engine.sp = 0 ∧
      List.Forall₂ Answer.Agree ((Session.opened {} s.observers).converse react 0 0 [.command .commit]).2
        ((s.perform react 0 0 (.command .reset)).1.converse react 0 0 [.command .commit]).2 := by
  refine ⟨_, _, rfl, rfl, by decide +kernel, by decide +kernel, ?_⟩
  have hr := Session.reached_converse {} (fun observer _ => (observer, []) : Reaction Unit) 0 0 [()]
    [.command (.execute (utf8 "PSH") [.imm 7]), .command (.announce (utf8 "POP") [])]
  exact (reset_starts_afresh (fun _ _ => rfl) ⟨[], hr⟩ 0 0 _).1

end StackMachine
