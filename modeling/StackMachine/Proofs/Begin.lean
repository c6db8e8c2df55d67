import StackMachine.EngineRun

namespace StackMachine

theorem Opcode.ofCode?_code (op : Opcode) : Opcode.ofCode? op.code = some op := by
  cases op <;> rfl

theorem Opcode.nameOfCode_code (op : Opcode) : Opcode.nameOfCode op.code = op.name := by
  rw [Opcode.nameOfCode, Opcode.ofCode?_code]
  rfl

theorem Effect.settled_reply {α : Type} (effect : Effect α) : effect.settled.reply = effect.reply := by
  unfold settled
  cases effect.notice <;> rfl

namespace Command

def mnemonic? : Command → Option Bytes
  | .execute mnemonic _ | .announce mnemonic _ => some mnemonic
  | _ => none

/-- Whether the command carries its instruction out at once. -/
def isImmediate : Command → Bool
  | .execute .. | .dispatch .. | .step _ => true
  | _ => false

def isStep : Command → Bool
  | .step _ => true
  | _ => false

end Command

namespace Engine

/-- The instruction that a command asks for. -/
def instruction? (e : Engine) : Command → Option (UInt8 × List Operand)
  | .execute mnemonic operands | .announce mnemonic operands =>
    (Opcode.ofName? mnemonic).map fun op => (op.code, operands)
  | .dispatch code operands => some (code, operands)
  | .step code => (decodeAt code e.ip).toOption.map fun i => (i.op.code, i.operands)
  | .commit | .reset => none

/-- What a command is rejected for, and the operation that the rejection names. -/
inductive Objects (e : Engine) (c : Command) : Bytes → Error → Prop
  | unknown {mnemonic : Bytes} : c.mnemonic? = some mnemonic → Opcode.ofName? mnemonic = none →
      Objects e c mnemonic ⟨[], .unknownMnemonic mnemonic⟩
  | fetch {code : Bytes} {error : Error} : c = .step code → decodeAt code e.ip = .error error →
      Objects e c (utf8 "FETCH") error
  | plan {code : UInt8} {operands : List Operand} {error : Error} : e.instruction? c = some (code, operands) →
      (e.plan code operands).2 = .error error → Objects e c (Opcode.nameOfCode code) error

/-- The engine after a rejection: it is counted, and the engine is busy with telling it. -/
def afterRejection (e : Engine) : Engine := { e with stats := e.stats.map Stats.reject, busy := true }

/-- The engine after a transaction: it is counted, and the engine is busy with telling it. -/
def afterTransaction (e : Engine) (t : Transaction) : Engine :=
  { e with machine := (e.machine.commit t).1, busy := true, stats := e.stats.map (·.commit t.op) }

def transactionNotice (e : Engine) (t : Transaction) : Notice :=
  ⟨e.generation, (e.machine.commit t).2.events e.ip⟩

def withdrawn (e : Engine) : Engine := { e with pending := none, phase := .idle }

/-- What a command can do. -/
inductive Begins (e : Engine) : Command → Effect Reply → Prop
  | refused {c : Command} {error : Error} {log : List LogEntry} (hc : c ≠ .reset)
      (turn : e.busy = true ∨ e.phase = .awaitingCommit ∧ c ≠ .commit) (kind : error.kind = .commitPending) :
      Begins e c { engine := e, reply := .error error, log }
  | nothing {log : List LogEntry} (free : e.busy = false) (unannounced : e.pending = none) :
      Begins e .commit { engine := e, reply := .error ⟨[], .nothingAnnounced⟩, log }
  | rejected {c : Command} {op : Bytes} {error : Error} {log : List LogEntry} (why : e.Objects c op error)
      (turn : c.isStep = true ∨ e.busy = false ∧ e.phase = .idle) :
      Begins e c { engine := e.afterRejection, reply := .error error, log,
                   notice := if e.busy then none else some ⟨e.generation, [.error op error.body]⟩ }
  | announced {mnemonic : Bytes} {operands : List Operand} {op : Opcode} {t : Transaction} {log : List LogEntry}
      (free : e.busy = false) (idle : e.phase = .idle) (named : Opcode.ofName? mnemonic = some op)
      (planned : (e.plan op.code operands).2 = .ok t) :
      Begins e (.announce mnemonic operands)
        { engine := { e with pending := some t, phase := .awaitingCommit },
          reply := .ok (.announced ⟨op, operands, t.consumed, t.detail⟩), log }
  | executed {c : Command} {code : UInt8} {operands : List Operand} {t : Transaction} {log : List LogEntry}
      (free : e.busy = false) (idle : e.phase = .idle) (immediate : c.isImmediate = true)
      (asked : e.instruction? c = some (code, operands)) (planned : (e.plan code operands).2 = .ok t) :
      Begins e c { engine := e.afterTransaction t, reply := .ok (.committed (e.machine.commit t).2), log,
                   notice := some (e.transactionNotice t) }
  | committed {t : Transaction} {log : List LogEntry} (free : e.busy = false) (announced : e.pending = some t) :
      Begins e .commit { engine := e.withdrawn.afterTransaction t,
                         reply := .ok (.committed (e.machine.commit t).2), log,
                         notice := some (e.transactionNotice t) }
  | reset : Begins e .reset (e.reset.map fun _ => .done)

theorem plan_eq_ok {e : Engine} {code : UInt8} {operands : List Operand} {t : Transaction}
    (h : (e.plan code operands).2 = .ok t) :
    ∃ op action, Opcode.ofCode? code = some op ∧ Action.ofOperands op operands = .ok action ∧
      e.machine.plan e.latch action = .ok t := by
  unfold Engine.plan Opcode.ofByte at h
  cases hc : Opcode.ofCode? code with
  | none => simp [hc] at h
  | some op =>
    cases ha : Action.ofOperands op operands with
    | error cause => simp [hc, ha, Cause.underOpcode] at h
    | ok action =>
      cases hp : e.machine.plan e.latch action with
      | error cause => simp [hc, ha, hp, Cause.underOpcode] at h
      | ok t' =>
        have ht : t' = t := by simpa [hc, ha, hp, Cause.underOpcode] using h
        exact ⟨op, action, rfl, ha, ht ▸ hp⟩

theorem refusal?_eq_none_iff {e : Engine} {op : Bytes} :
    e.refusal? op = none ↔ e.busy = false ∧ e.phase = .idle := by
  unfold refusal?
  cases e.busy <;> cases e.phase <;> simp

theorem refusal?_eq_some {e : Engine} {op : Bytes} {error : Error} (h : e.refusal? op = some error) :
    (e.busy = true ∨ e.phase = .awaitingCommit) ∧ error.kind = .commitPending := by
  unfold refusal? at h
  split at h
  next hb => cases h; exact ⟨.inl hb, rfl⟩
  next =>
    split at h
    next => cases h
    next hp => cases h; exact ⟨.inr hp, rfl⟩

theorem reject_eq {α : Type} (e : Engine) (op : Bytes) (error : Error) :
    (e.reject op error : Effect α) =
      { engine := e.afterRejection, reply := .error error, log := [.rejected (some op) error],
        notice := if e.busy then none else some ⟨e.generation, [.error op error.body]⟩ } := by
  unfold reject afterRejection
  cases h : e.busy <;> simp

theorem reject_notice_current {α : Type} {e : Engine} {op : Bytes} {error : Error} {notice : Notice}
    (hn : (e.reject op error : Effect α).notice = some notice) :
    notice.generation = (e.reject op error : Effect α).engine.generation ∧
      (e.reject op error : Effect α).engine.busy = true := by
  rw [reject_eq] at hn ⊢
  dsimp only at hn
  split at hn
  next => cases hn
  next => cases hn; exact ⟨rfl, rfl⟩

theorem spendLimit_notice_current {e : Engine} {notice : Notice} (hn : e.spendLimit.notice = some notice) :
    notice.generation = e.spendLimit.engine.generation ∧ e.spendLimit.engine.busy = true :=
  reject_notice_current hn

/-- A rejection that was told leaves its mark on the counters only. -/
theorem settle_afterRejection {e : Engine} (free : e.busy = false) :
    e.afterRejection.settle e.generation = { e with stats := e.stats.map Stats.reject } := by
  simp only [settle, afterRejection, if_true, ← free]

/-- A transaction that was told leaves its mark on the machine and the counters only. -/
theorem settle_afterTransaction {e : Engine} (free : e.busy = false) (t : Transaction) :
    (e.afterTransaction t).settle e.generation =
      { e with machine := (e.machine.commit t).1, stats := e.stats.map (·.commit t.op) } := by
  simp only [settle, afterTransaction, if_true, ← free]

theorem begins_unknown {α : Type} {e : Engine} {c : Command} {mnemonic : Bytes} (f : α → Reply)
    (given : c.mnemonic? = some mnemonic) (unnamed : Opcode.ofName? mnemonic = none) :
    e.Begins c ((e.unknown mnemonic).map f) := by
  have hreset : c ≠ .reset := by rintro rfl; cases given
  have hcommit : c ≠ .commit := by rintro rfl; cases given
  unfold unknown
  split
  next error hr =>
    obtain ⟨turn, kind⟩ := refusal?_eq_some hr
    exact .refused hreset (turn.imp_right fun hp => ⟨hp, hcommit⟩) kind
  next hr =>
    rw [reject_eq]
    exact .rejected (.unknown given unnamed) (.inr (refusal?_eq_none_iff.mp hr))

theorem begins_dispatch {e : Engine} {c : Command} {code : UInt8} {operands : List Operand}
    (immediate : c.isImmediate = true) (asked : e.instruction? c = some (code, operands)) :
    e.Begins c ((e.dispatch code operands).map .committed) := by
  have hreset : c ≠ .reset := by rintro rfl; cases asked
  have hcommit : c ≠ .commit := by rintro rfl; cases asked
  unfold dispatch
  dsimp only
  split
  next error hr =>
    obtain ⟨turn, kind⟩ := refusal?_eq_some hr
    exact .refused hreset (turn.imp_right fun hp => ⟨hp, hcommit⟩) kind
  next hr =>
    have hfree := refusal?_eq_none_iff.mp hr
    split
    next log error hp =>
      rw [reject_eq]
      exact .rejected (.plan asked (congrArg Prod.snd hp)) (.inr hfree)
    next log t hp => exact .executed hfree.1 hfree.2 immediate asked (congrArg Prod.snd hp)

theorem begins_announce (e : Engine) (mnemonic : Bytes) (operands : List Operand) :
    e.Begins (.announce mnemonic operands) ((e.announce mnemonic operands).map .announced) := by
  unfold announce
  split
  next hn => exact begins_unknown .announced rfl hn
  next op hn =>
    have hasked : e.instruction? (.announce mnemonic operands) = some (op.code, operands) := by
      simp [instruction?, hn]
    split
    next error hr =>
      obtain ⟨turn, kind⟩ := refusal?_eq_some hr
      exact .refused (by simp) (turn.imp_right fun hp => ⟨hp, by simp⟩) kind
    next hr =>
      have hfree := refusal?_eq_none_iff.mp hr
      split
      next log error hp =>
        have hwhy := Objects.plan hasked (congrArg Prod.snd hp)
        rw [Opcode.nameOfCode_code] at hwhy
        rw [reject_eq]
        exact .rejected hwhy (.inr hfree)
      next log t hp => exact .announced hfree.1 hfree.2 hn (congrArg Prod.snd hp)

theorem begins_commit (e : Engine) : e.Begins .commit (e.commit.map .committed) := by
  unfold commit
  split
  next hb => exact .refused (by simp) (.inl hb) rfl
  next hb =>
    have hfree : e.busy = false := by simpa using hb
    split
    next hp => exact .nothing hfree hp
    next t hp => exact .committed hfree hp

theorem begins_step (e : Engine) (code : Bytes) : e.Begins (.step code) ((e.step code).map .committed) := by
  unfold step
  split
  next error hd =>
    rw [reject_eq]
    exact .rejected (.fetch rfl hd) (.inl rfl)
  next i hd => exact begins_dispatch rfl (by simp [instruction?, hd, Except.toOption])

theorem begin_begins (e : Engine) (c : Command) : e.Begins c (e.begin c) := by
  cases c with
  | execute mnemonic operands =>
    simp only [Engine.begin, execute]
    split
    next op hn => exact begins_dispatch rfl (by simp [instruction?, hn])
    next hn => exact begins_unknown .committed rfl hn
  | dispatch code operands => exact begins_dispatch rfl rfl
  | announce mnemonic operands => exact begins_announce e mnemonic operands
  | commit => exact begins_commit e
  | reset => exact .reset
  | step code => exact begins_step e code

/-- A notice that begins is of the present generation, and the engine is busy with it. -/
theorem Begins.notice_current {e : Engine} {c : Command} {effect : Effect Reply} {notice : Notice}
    (hb : e.Begins c effect) (hn : effect.notice = some notice) :
    notice.generation = effect.engine.generation ∧ effect.engine.busy = true := by
  cases hb with
  | refused | nothing | announced => cases hn
  | rejected =>
    dsimp only at hn
    split at hn
    next => cases hn
    next => cases hn; exact ⟨rfl, rfl⟩
  | executed => cases hn; exact ⟨rfl, rfl⟩
  | committed => cases hn; exact ⟨rfl, rfl⟩
  | reset => cases hn

theorem step_notice_current {e : Engine} {code : Bytes} {notice : Notice} (hn : (e.step code).notice = some notice) :
    notice.generation = (e.step code).engine.generation ∧ (e.step code).engine.busy = true :=
  (e.begins_step code).notice_current hn

end Engine

end StackMachine
