import StackMachine.Proofs.Listening
import StackMachine.Proofs.Reentrancy

namespace StackMachine

namespace Engine

variable {e : Engine}

def awaiting (e : Engine) (t : Transaction) : Engine := { e with pending := some t, phase := .awaitingCommit }

/-- Only the counters of the engine may have moved. -/
def Unmoved (e e' : Engine) : Prop := e' = { e with stats := e'.stats }

theorem Unmoved.trans {e' e'' : Engine} (h : e.Unmoved e') (h' : e'.Unmoved e'') : e.Unmoved e'' := by
  unfold Unmoved at *
  rw [h', h]

/-- An instruction is announced exactly when it can be executed, and a failure is the same in all respects. -/
theorem announce_cases (free : e.busy = false) (idle : e.phase = .idle) (mnemonic : Bytes) (operands : List Operand) :
    (∃ error, (e.begin (.execute mnemonic operands)).reply = .error error ∧
      e.begin (.announce mnemonic operands) = e.begin (.execute mnemonic operands)) ∨
    (∃ op t log log',
      e.begin (.execute mnemonic operands) =
        { engine := e.afterTransaction t, reply := .ok (.committed (e.machine.commit t).2),
          notice := some (e.transactionNotice t), log } ∧
      e.begin (.announce mnemonic operands) =
        { engine := e.awaiting t, reply := .ok (.announced ⟨op, operands, t.consumed, t.detail⟩), log := log' }) := by
  have hr : ∀ op, e.refusal? op = none := fun op => refusal?_eq_none_iff.mpr ⟨free, idle⟩
  simp only [Engine.begin, execute, announce]
  cases hn : Opcode.ofName? mnemonic with
  | none =>
    simp only [unknown, hr, reject_eq]
    exact .inl ⟨_, rfl, rfl⟩
  | some op =>
    simp only [dispatch, Opcode.nameOfCode_code, hr]
    cases hp : e.plan op.code operands with
    | mk log planned =>
      cases planned with
      | error error =>
        simp only [reject_eq]
        exact .inl ⟨_, rfl, rfl⟩
      | ok t => exact .inr ⟨op, t, _, _, rfl, rfl⟩

/-- While a transaction is announced, a command other than a commit or a reset fails, and moves the counters only. -/
theorem Begins.put_off {c : Command} {effect : Effect Reply} (hb : e.Begins c effect) (free : e.busy = false)
    (waiting : e.phase = .awaitingCommit) (hcommit : c ≠ .commit) (hreset : c ≠ .reset) :
    e.Unmoved effect.settled.engine ∧
      ∃ error, effect.reply = .error error ∧ (c.isStep = false → error.kind = .commitPending) := by
  have hidle : e.phase ≠ .idle := by rw [waiting]; decide
  have hnot : ¬ e.busy = true := by simp [free]
  cases hb with
  | refused _ _ kind => exact ⟨rfl, _, rfl, fun _ => kind⟩
  | rejected _ turn =>
    have hstep : c.isStep = true := turn.resolve_right fun h => hidle h.2
    refine ⟨?_, _, rfl, fun h => ?_⟩
    · simp only [Effect.settled, if_neg hnot]
      rw [settle_afterRejection free]
      rfl
    · rw [hstep] at h
      cases h
  | nothing => exact absurd rfl hcommit
  | announced _ idle => exact absurd idle hidle
  | executed _ idle => exact absurd idle hidle
  | committed => exact absurd rfl hcommit
  | reset => exact absurd rfl hreset

/-- A rejection, once it was told if it was to be told. -/
theorem settled_rejection {α : Type} (e : Engine) (op : Bytes) (error : Error) (reply : Except Error α)
    (log : List LogEntry) :
    let done := Effect.settled
      { engine := e.afterRejection, reply, log,
        notice := if e.busy then none else some ⟨e.generation, [.error op error.body]⟩ }
    e.Unmoved done.engine ∧ done.events = if e.busy = false then [.error op error.body] else [] := by
  by_cases hbusy : e.busy = true
  · simp only [Effect.settled, if_pos hbusy]
    refine ⟨?_, by simp [hbusy]⟩
    rw [Unmoved, afterRejection, ← hbusy]
  · have hfree : e.busy = false := by simpa using hbusy
    simp only [Effect.settled, if_neg hbusy]
    refine ⟨?_, by simp [hfree]⟩
    rw [Unmoved, settle_afterRejection hfree]

theorem unmoved_spendLimit (e : Engine) : e.Unmoved e.spendLimit.settled.engine := by
  rw [spendLimit, reject_eq]
  exact (e.settled_rejection _ _ _ _).1

/-- The commit of an announced transaction, after calls that moved the counters only. -/
theorem perform_commit {e' : Engine} {t : Transaction} (free : e.busy = false) (h : (e.awaiting t).Unmoved e') :
    (e'.begin .commit).reply = .ok (.committed (e.machine.commit t).2) ∧
      (e'.perform .commit).events = (e.machine.commit t).2.events e.ip ∧
      (e'.perform .commit).engine =
        { e with machine := (e.machine.commit t).1, phase := .idle, pending := none
                 stats := e'.stats.map (·.commit t.op) } := by
  have hbegin : e'.begin .commit =
      { engine := { e.withdrawn with stats := e'.stats }.afterTransaction t
        reply := .ok (.committed (e.machine.commit t).2)
        notice := some (e.transactionNotice t) } := by
    rw [h]
    simp only [Engine.begin, commit, awaiting, free]
    rfl
  have hsettle := settle_afterTransaction (e := { e.withdrawn with stats := e'.stats }) free t
  rw [perform, hbegin]
  exact ⟨rfl, rfl, hsettle⟩

theorem begin_commit_unannounced (free : e.busy = false) (unannounced : e.pending = none) :
    (e.begin .commit).reply = .error ⟨[], .nothingAnnounced⟩ := by
  simp only [Engine.begin, commit, free, unannounced]
  rfl

end Engine

namespace Session

variable {ω : Type} {react : Reaction ω} {s : Session ω}

theorem answer_put_off {nested : Session ω → List (Call ω) → Session ω} {call : Call ω} {patience : Nat}
    (hp : react.Passive) (hn : ∀ s, nested s [] = s) (free : s.engine.busy = false)
    (waiting : s.engine.phase = .awaitingCommit) (hcommit : .commit ∉ call.commands) (hreset : .reset ∉ call.commands) :
    s.engine.Unmoved (s.answer react nested patience call).1.engine ∧
      call.TurnedDown (s.answer react nested patience call).2 := by
  apply answer_turned_down (P := fun s' => s.engine.Unmoved s'.engine)
  · rfl
  · exact fun observers => rfl
  · rw [carryOut_spend_passive hp hn]
    exact s.engine.unmoved_spendLimit
  · intro c hmem
    have hb := s.engine.begin_begins c
    obtain ⟨hmoved, herror⟩ :=
      hb.put_off free waiting (fun h => hcommit (h ▸ hmem)) (fun h => hreset (h ▸ hmem))
    refine ⟨?_, herror⟩
    rw [carryOut_passive hp hn s fun notice hnotice => (hb.notice_current hnotice).1]
    exact hmoved

theorem converse_put_off {calls : List (Call ω)} (hp : react.Passive) (patience depth : Nat)
    (free : s.engine.busy = false) (waiting : s.engine.phase = .awaitingCommit)
    (hcalls : ∀ call ∈ calls, .commit ∉ call.commands ∧ .reset ∉ call.commands) :
    s.engine.Unmoved (s.converse react patience depth calls).1.engine ∧
      List.Forall₂ Call.TurnedDown calls (s.converse react patience depth calls).2 := by
  obtain ⟨nested, hn, hperform⟩ := perform_eq_answer react patience depth
  apply converse_forall (P := fun s' => s.engine.Unmoved s'.engine)
  · intro call hmem s' hs'
    have hfree : s'.engine.busy = false := by rw [hs']; exact free
    have hwaiting : s'.engine.phase = .awaitingCommit := by rw [hs']; exact waiting
    obtain ⟨hcommit, hreset⟩ := hcalls call hmem
    rw [hperform]
    obtain ⟨hmoved, hanswer⟩ := answer_put_off hp hn hfree hwaiting hcommit hreset
    exact ⟨hs'.trans hmoved, hanswer⟩
  · rfl

/-- The commit of a transaction that engine `e` had announced; a second one fails. -/
theorem perform_commit_passive {e : Engine} {t : Transaction} (hp : react.Passive) (patience depth : Nat)
    (free : e.busy = false) (h : (e.awaiting t).Unmoved s.engine) :
    let committed := s.perform react patience depth (.command .commit)
    committed.2 = .reply (.ok (.committed (e.machine.commit t).2)) ∧
    committed.1.engine =
      { e with machine := (e.machine.commit t).1, phase := .idle, pending := none
               stats := s.engine.stats.map (·.commit t.op) } ∧
    committed.1.told = s.told ++ broadcast s.observers.length ((e.machine.commit t).2.events e.ip) ∧
    (committed.1.perform react patience depth (.command .commit)).2 =
      .reply (.error (.engine ⟨[], .nothingAnnounced⟩)) := by
  obtain ⟨hreply, hevents, hengine⟩ := Engine.perform_commit free h
  intro committed
  have hcommitted : committed = _ := perform_command_passive hp patience depth s .commit
  rw [hreply] at hcommitted
  have hafter : committed.1.engine = _ := (congrArg (·.1.engine) hcommitted).trans hengine
  have hfree : committed.1.engine.busy = false := by rw [hafter]; exact free
  have hnothing : committed.1.engine.pending = none := by rw [hafter]
  refine ⟨by rw [hcommitted]; rfl, hafter, ?_, ?_⟩
  · rw [hcommitted, ← hevents]
    rfl
  · rw [perform_command_passive hp, Engine.begin_commit_unannounced hfree hnothing]
    rfl

end Session

/-- With observers that only listen, an instruction is announced exactly when it would be executed, and its failure is
the same in all respects. Once it is announced, and whatever is called short of a commit or a reset, the calls that name
an instruction are turned down and the machine stays. The commit then gives the answer that the execution would have
given, leaves the engine as the execution would have left it but for the counters, and tells the same events to those
who listen by then. -/
theorem commit_completes_announcement {ω : Type} {o : Options} {react : Reaction ω} {s : Session ω}
    (hp : react.Passive) (hr : s.engine.Reachable o) (free : s.engine.busy = false) (idle : s.engine.phase = .idle)
    (patience depth : Nat) (mnemonic : Bytes) (operands : List Operand) :
    let executed := s.perform react patience depth (.command (.execute mnemonic operands))
    let announced := s.perform react patience depth (.command (.announce mnemonic operands))
    (∃ failure, executed.2 = .reply (.error failure) ∧ announced = executed) ∨
    ∃ result preview,
      executed.2 = .reply (.ok (.committed result)) ∧
      executed.1.told = s.told ++ broadcast s.observers.length (result.events s.engine.ip) ∧
      executed.1.engine.phase = .idle ∧ executed.1.engine.pending = none ∧ executed.1.engine.busy = false ∧
      announced.2 = .reply (.ok (.announced preview)) ∧ announced.1.told = s.told ∧
      preview.detail = result.detail ∧
      ∀ calls : List (Call ω), (∀ call ∈ calls, .commit ∉ call.commands ∧ .reset ∉ call.commands) →
        let between := announced.1.converse react patience depth calls
        let committed := between.1.perform react patience depth (.command .commit)
        List.Forall₂ Call.TurnedDown calls between.2 ∧
        between.1.engine.machine = s.engine.machine ∧
        committed.2 = executed.2 ∧
        committed.1.engine = { executed.1.engine with stats := committed.1.engine.stats } ∧
        committed.1.told =
          between.1.told ++ broadcast between.1.observers.length (result.events s.engine.ip) ∧
        ∃ error, (committed.1.perform react patience depth (.command .commit)).2 = .reply (.error (.engine error)) ∧
          error.kind = .nothingPending := by
  intro executed announced
  have hexecuted : executed = _ := Session.perform_command_passive hp patience depth s (.execute mnemonic operands)
  have hannounced : announced = _ := Session.perform_command_passive hp patience depth s (.announce mnemonic operands)
  rw [Engine.perform] at hexecuted hannounced
  rcases Engine.announce_cases free idle mnemonic operands with ⟨error, hreply, hsame⟩ | ⟨op, t, log, log', hexec, hann⟩
  · left
    -- both calls have one and the same effect
    rw [hsame] at hannounced
    refine ⟨.engine error, ?_, hannounced.trans hexecuted.symm⟩
    rw [hexecuted, hreply]
    rfl
  · right
    rw [hexec] at hexecuted
    rw [hann] at hannounced
    have hengine : executed.1.engine =
        { s.engine with machine := (s.engine.machine.commit t).1, stats := s.engine.stats.map (·.commit t.op) } := by
      rw [hexecuted]
      exact Engine.settle_afterTransaction free t
    have hpending : executed.1.engine.pending = none := by
      rw [hengine]
      exact hr.valid.pending_eq_none idle
    have htold : announced.1.told = s.told := by
      rw [hannounced]
      simp [Session.listened, Effect.settled, broadcast]
    refine ⟨(s.engine.machine.commit t).2, ⟨op, operands, t.consumed, t.detail⟩, by rw [hexecuted]; rfl,
      by rw [hexecuted]; rfl, by rw [hengine]; exact idle, hpending, by rw [hengine]; exact free,
      by rw [hannounced]; rfl, htold, rfl, ?_⟩
    intro calls hcalls between committed
    -- whatever is called in between, the transaction is still announced when the commit comes
    have hawaiting : announced.1.engine = s.engine.awaiting t := by rw [hannounced]; rfl
    obtain ⟨hmoved, hanswers⟩ := Session.converse_put_off hp patience depth
      (show announced.1.engine.busy = false by rw [hawaiting]; exact free) (by rw [hawaiting]; rfl) hcalls
    rw [hawaiting] at hmoved
    obtain ⟨hreply, hcommitted, htold, hagain⟩ := Session.perform_commit_passive hp patience depth free hmoved
    refine ⟨hanswers, by rw [hmoved]; rfl, ?_, ?_, htold, _, hagain, rfl⟩
    · exact hreply.trans (by rw [hexecuted]; rfl)
    · rw [hcommitted, hengine, ← idle, ← hr.valid.pending_eq_none idle]

/-- A push is announced to one listener; a second instruction is turned down and a second listener comes in between. -/
theorem commit_completes_announcement_push :
    let react : Reaction Unit := fun _ _ => ((), [])
    let s := Session.opened {} [()]
    let between := (s.perform react 0 0 (.command (.announce (utf8 "PSH") [.imm 5]))).1.converse react 0 0
      [.command (.execute (utf8 "NOP") []), .run [] none, .attach ()]
    react.Passive ∧ s.engine.Reachable {} ∧ s.engine.busy = false ∧ s.engine.phase = .idle ∧
    between.1.engine.machine = s.engine.machine ∧
    (between.1.perform react 0 0 (.command .commit)).2 =
      (s.perform react 0 0 (.command (.execute (utf8 "PSH") [.imm 5]))).2 := by
  intro react s between
  have hp : react.Passive := fun _ _ => rfl
  have hr : s.engine.Reachable {} := ⟨[], [], rfl⟩
  refine ⟨hp, hr, rfl, rfl, ?_⟩
  rcases commit_completes_announcement hp hr rfl rfl 0 0 (utf8 "PSH") [.imm 5] with
    ⟨failure, hfailed, _⟩ | ⟨_, _, _, _, _, _, _, _, _, _, hrest⟩
  · cases hfailed
  · obtain ⟨_, hmachine, hsame, _⟩ := hrest
      [.command (.execute (utf8 "NOP") []), .run [] none, .attach ()] (by simp [Call.commands])
    exact ⟨hmachine, hsame⟩

end StackMachine
