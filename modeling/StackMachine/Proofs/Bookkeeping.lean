import StackMachine.Proofs.Begin

namespace StackMachine

namespace Effect

variable {α β : Type}

theorem settled_map (f : α → β) (effect : Effect α) :
    (effect.map f).settled =
      ⟨effect.settled.engine, f <$> effect.settled.reply, effect.settled.events, effect.settled.log⟩ := by
  unfold settled map
  cases effect.notice <;> rfl

theorem settled_after (before : List LogEntry) (effect : Effect α) :
    (effect.after before).settled = { effect.settled with log := before ++ effect.settled.log } := by
  unfold settled after
  cases effect.notice <;> rfl

end Effect

namespace Engine

variable {α β : Type} {e : Engine}

def booked (e : Engine) (generation : Nat) (maxSteps : Int64) (stats : Option Stats) : Engine :=
  { e with generation, maxSteps, stats }

section Booked

variable (e : Engine) (generation : Nat) (maxSteps : Int64) (stats : Option Stats)

theorem booked_refusal? (op : Bytes) : (e.booked generation maxSteps stats).refusal? op = e.refusal? op := rfl

theorem booked_plan : (e.booked generation maxSteps stats).plan = e.plan := rfl

theorem booked_ip : (e.booked generation maxSteps stats).ip = e.ip := rfl

theorem booked_busy : (e.booked generation maxSteps stats).busy = e.busy := rfl

theorem booked_pending : (e.booked generation maxSteps stats).pending = e.pending := rfl

end Booked

/-- A call that comes to the same whatever the books of the engine are. -/
def Oblivious (e : Engine) (call : Engine → Effect α) : Prop :=
  ∃ (e' : Engine) (reply : Except Error α) (events : List Event) (log : List LogEntry) (resets : Nat)
    (entry : Stats → Stats), ∀ generation maxSteps stats,
      (call (e.booked generation maxSteps stats)).settled =
        ⟨e'.booked (generation + resets) maxSteps (stats.map entry), reply, events, log⟩

theorem oblivious_refuse (e : Engine) (op : Option Bytes) (error : Error) :
    e.Oblivious fun e => (e.refuse op error : Effect α) := by
  refine ⟨e, .error error, [], [.rejected op error], 0, id, ?_⟩
  intro generation maxSteps stats
  simp only [Option.map_id_fun, id_eq]
  rfl

theorem oblivious_reject (e : Engine) (op : Bytes) (error : Error) :
    e.Oblivious fun e => (e.reject op error : Effect α) := by
  cases hb : e.busy with
  | true =>
    refine ⟨e, .error error, [], [.rejected (some op) error], 0, Stats.reject, ?_⟩
    intro generation maxSteps stats
    simp [reject, booked, hb, Effect.settled]
  | false =>
    refine ⟨e, .error error, [.error op error.body], [.rejected (some op) error], 0, Stats.reject, ?_⟩
    intro generation maxSteps stats
    simp [reject, booked, hb, Effect.settled, settle]

theorem oblivious_apply (e : Engine) (t : Transaction) : e.Oblivious (·.apply t) := by
  refine ⟨{ e with machine := (e.machine.commit t).1, busy := false }, .ok (e.machine.commit t).2,
    (e.machine.commit t).2.events e.ip, [], 0, (·.commit t.op), ?_⟩
  intro generation maxSteps stats
  simp [apply, booked, Effect.settled, settle, Engine.ip]

theorem Oblivious.congr {call call' : Engine → Effect α} (h : e.Oblivious call)
    (same : ∀ generation maxSteps stats,
      call' (e.booked generation maxSteps stats) = call (e.booked generation maxSteps stats)) :
    e.Oblivious call' := by
  obtain ⟨e', reply, events, log, resets, entry, h⟩ := h
  refine ⟨e', reply, events, log, resets, entry, ?_⟩
  intro generation maxSteps stats
  rw [same, h]

theorem Oblivious.map {call : Engine → Effect α} (f : α → β) (h : e.Oblivious call) :
    e.Oblivious fun e => (call e).map f := by
  obtain ⟨e', reply, events, log, resets, entry, h⟩ := h
  refine ⟨e', f <$> reply, events, log, resets, entry, ?_⟩
  intro generation maxSteps stats
  rw [Effect.settled_map, h]

theorem Oblivious.after {call : Engine → Effect α} (before : List LogEntry) (h : e.Oblivious call) :
    e.Oblivious fun e => (call e).after before := by
  obtain ⟨e', reply, events, log, resets, entry, h⟩ := h
  refine ⟨e', reply, events, before ++ log, resets, entry, ?_⟩
  intro generation maxSteps stats
  rw [Effect.settled_after, h]

theorem oblivious_unknown (e : Engine) (mnemonic : Bytes) :
    e.Oblivious fun e => (e.unknown mnemonic : Effect α) := by
  cases hr : e.refusal? mnemonic with
  | some error =>
    apply (oblivious_refuse e (some mnemonic) error).congr
    intro generation maxSteps stats
    simp only [unknown, booked_refusal?, hr]
  | none =>
    apply (oblivious_reject e mnemonic ⟨[], .unknownMnemonic mnemonic⟩).congr
    intro generation maxSteps stats
    simp only [unknown, booked_refusal?, hr]

theorem oblivious_dispatch (e : Engine) (code : UInt8) (operands : List Operand) :
    e.Oblivious (·.dispatch code operands) := by
  cases hr : e.refusal? (Opcode.nameOfCode code) with
  | some error =>
    apply (oblivious_refuse e (some (Opcode.nameOfCode code)) error).congr
    intro generation maxSteps stats
    simp only [dispatch, booked_refusal?, hr]
  | none =>
    obtain ⟨log, planned, hp⟩ : ∃ log planned, e.plan code operands = (log, planned) := ⟨_, _, rfl⟩
    cases planned with
    | error error =>
      apply ((oblivious_reject e (Opcode.nameOfCode code) error).after log).congr
      intro generation maxSteps stats
      simp only [dispatch, booked_refusal?, hr, booked_plan, hp]
    | ok t =>
      apply ((oblivious_apply e t).after log).congr
      intro generation maxSteps stats
      simp only [dispatch, booked_refusal?, hr, booked_plan, hp]

theorem oblivious_announce (e : Engine) (mnemonic : Bytes) (operands : List Operand) :
    e.Oblivious (·.announce mnemonic operands) := by
  cases hn : Opcode.ofName? mnemonic with
  | none =>
    apply (oblivious_unknown e mnemonic).congr
    intro generation maxSteps stats
    simp only [announce, hn]
  | some op =>
    cases hr : e.refusal? op.name with
    | some error =>
      apply (oblivious_refuse e (some op.name) error).congr
      intro generation maxSteps stats
      simp only [announce, hn, booked_refusal?, hr]
    | none =>
      obtain ⟨log, planned, hp⟩ : ∃ log planned, e.plan op.code operands = (log, planned) := ⟨_, _, rfl⟩
      cases planned with
      | error error =>
        apply ((oblivious_reject e op.name error).after log).congr
        intro generation maxSteps stats
        simp only [announce, hn, booked_refusal?, hr, booked_plan, hp]
      | ok t =>
        refine ⟨{ e with pending := some t, phase := .awaitingCommit }, .ok ⟨op, operands, t.consumed, t.detail⟩, [],
          log ++ [.announce op t.consumed.length], 0, id, ?_⟩
        intro generation maxSteps stats
        simp only [announce, hn, booked_refusal?, hr, booked_plan, hp, Option.map_id_fun, id_eq]
        rfl

theorem oblivious_commit (e : Engine) : e.Oblivious (·.commit) := by
  cases hb : e.busy with
  | true =>
    apply (oblivious_refuse e (some (utf8 "COMMIT")) ⟨utf8 "COMMIT", .insideCallback⟩).congr
    intro generation maxSteps stats
    simp only [commit, booked_busy, hb, if_true]
  | false =>
    cases hp : e.pending with
    | none =>
      apply (oblivious_refuse e none ⟨[], .nothingAnnounced⟩).congr
      intro generation maxSteps stats
      simp only [commit, booked_busy, hb, booked_pending, hp, Bool.false_eq_true, if_false]
    | some t =>
      obtain ⟨e', reply, events, log, resets, entry, h⟩ := oblivious_apply e.withdrawn t
      refine ⟨e', reply, events, log, resets, entry, ?_⟩
      intro generation maxSteps stats
      rw [← h generation maxSteps stats]
      simp only [commit, booked_busy, hb, booked_pending, hp, Bool.false_eq_true, if_false]
      rfl

theorem oblivious_reset (e : Engine) : e.Oblivious (·.reset) := by
  refine ⟨e.reset.engine, .ok (), [], [.reset e.pending.isSome], 1, id, ?_⟩
  intro generation maxSteps stats
  simp only [Option.map_id_fun, id_eq]
  rfl

theorem oblivious_step (e : Engine) (code : Bytes) : e.Oblivious (·.step code) := by
  cases hd : decodeAt code e.ip with
  | error error =>
    apply (oblivious_reject e (utf8 "FETCH") error).congr
    intro generation maxSteps stats
    simp only [step, booked_ip, hd]
  | ok i =>
    apply (oblivious_dispatch e i.op.code i.operands).congr
    intro generation maxSteps stats
    simp only [step, booked_ip, hd]

theorem oblivious_execute (e : Engine) (mnemonic : Bytes) (operands : List Operand) :
    e.Oblivious (·.execute mnemonic operands) := by
  cases hn : Opcode.ofName? mnemonic with
  | some op =>
    apply (oblivious_dispatch e op.code operands).congr
    intro generation maxSteps stats
    simp only [execute, hn]
  | none =>
    apply (oblivious_unknown e mnemonic).congr
    intro generation maxSteps stats
    simp only [execute, hn]

theorem oblivious_begin (e : Engine) (c : Command) : e.Oblivious (·.begin c) := by
  cases c with
  | execute mnemonic operands => exact (oblivious_execute e mnemonic operands).map Reply.committed
  | dispatch code operands => exact (oblivious_dispatch e code operands).map Reply.committed
  | announce mnemonic operands => exact (oblivious_announce e mnemonic operands).map Reply.announced
  | commit => exact (oblivious_commit e).map Reply.committed
  | reset => exact (oblivious_reset e).map fun _ => Reply.done
  | step code => exact (oblivious_step e code).map Reply.committed

end Engine

end StackMachine
