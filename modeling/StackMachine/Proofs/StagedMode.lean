import StackMachine.Proofs.TableRefinement
import StackMachine.Repl

namespace StackMachine

/-- An instruction is announced exactly when it can be executed. A rejection is the same either way, and otherwise
nobody hears of the announcement and the commit does what the execution does. -/
theorem Engine.AtRest.announce_cases {e : Engine} (rest : e.AtRest) (mnemonic : Bytes) (operands : List Operand) :
    let announced := (e.announce mnemonic operands).settled
    let executed := (e.execute mnemonic operands).settled
    (∃ error, announced.reply = .error error ∧ executed.reply = .error error ∧
      announced.engine = executed.engine ∧ announced.events = executed.events) ∨
    (∃ preview, announced.reply = .ok preview ∧ announced.events = [] ∧
      announced.engine.commit.settled.engine = executed.engine ∧
      announced.engine.commit.settled.reply = executed.reply ∧
      announced.engine.commit.settled.events = executed.events) := by
  obtain ⟨free, idle, unannounced⟩ := rest
  have hr : ∀ op, e.refusal? op = none := fun op => refusal?_eq_none_iff.mpr ⟨free, idle⟩
  have hnot : ¬ e.busy = true := by simp [free]
  simp only [Engine.execute, announce]
  cases Opcode.ofName? mnemonic with
  | none =>
    simp only [unknown, hr, reject_eq, if_neg hnot, Effect.settled]
    exact .inl ⟨_, rfl, rfl, trivial, trivial⟩
  | some op =>
    simp only [dispatch, Opcode.nameOfCode_code, hr]
    cases e.plan op.code operands with
    | mk log planned =>
      cases planned with
      | error error =>
        simp only [reject_eq, if_neg hnot, Effect.after, Effect.settled]
        exact .inl ⟨_, rfl, rfl, trivial, trivial⟩
      | ok t =>
        have hcommit : Engine.commit { e with pending := some t, phase := .awaitingCommit } = e.apply t := by
          have hback : { e with pending := none, phase := .idle } = e := by
            cases e
            simp_all
          simp only [Engine.commit, if_neg hnot, hback]
        refine .inr ⟨_, rfl, rfl, ?_⟩
        simp only [Effect.settled, hcommit]
        exact ⟨rfl, rfl, rfl⟩

namespace Repl

variable {r r' : Repl}

/-- The loop after some lines. -/
def fed [FrameFormats] (r : Repl) (lines : List Bytes) : Repl := lines.foldl (fun r line => (r.eval line).1) r

/-- A statement leaves what its execution leaves and is answered as its execution is, in either mode; all that the mode
adds is a preview. -/
theorem execute_eq (rest : r.engine.AtRest) (s : Statement) :
    ∃ preview, r.execute s =
      (r.after (r.engine.execute s.word s.operands).settled,
        .executed preview (r.engine.execute s.word s.operands).settled.reply) := by
  unfold execute
  by_cases hs : r.announces s = true
  · rw [if_pos hs]
    rcases rest.announce_cases s.word s.operands with
      ⟨error, hreply, hexecuted, hengine, hevents⟩ | ⟨preview, hreply, hsilent, hengine, hexecuted, hevents⟩
    · refine ⟨none, ?_⟩
      simp only [hreply, after, hexecuted, hengine, hevents]
    · refine ⟨some preview, ?_⟩
      simp only [hreply, after, hsilent, hengine, hexecuted, hevents]
      rfl
  · rw [if_neg hs]
    exact ⟨none, rfl⟩

/-- Loops that differ in the mode and its pause at most, and are ready for the next line. -/
structure Alike (r r' : Repl) : Prop where
  rest : r.engine.AtRest
  engine : r.engine = r'.engine
  trace : r.trace = r'.trace
  history : r.history = r'.history
  cursor : r.cursor = r'.cursor
  done : r.done = r'.done
  folder : r.folder = r'.folder

namespace Alike

theorem saveTrace [FrameFormats] (h : r.Alike r') (path : Bytes) :
    (r.saveTrace path).1.Alike (r'.saveTrace path).1 := by
  unfold Repl.saveTrace
  rw [← h.trace, ← h.folder]
  cases hf : Format.ofPath path with
  | error error => exact h
  | ok format =>
    cases hs : r.trace.frame.save none r.folder path format.text with
    | mk folder failure =>
      cases failure with
      | none =>
        simp only [hs]
        exact { h with trace := rfl, folder := rfl }
      | some error =>
        simp only [hs]
        exact { h with trace := rfl, folder := rfl }

theorem command [FrameFormats] (h : r.Alike r') (c : ReplCommand) : (r.command c).1.Alike (r'.command c).1 := by
  cases c with
  | quit => exact { h with done := rfl }
  | next => exact { h with cursor := congrArg (fun op : Opcode => Opcode.after op.code) h.cursor }
  | reset =>
    have hengine : r.engine.reset.settled.engine = r'.engine.reset.settled.engine := by rw [h.engine]
    exact { h with rest := ⟨rfl, rfl, rfl⟩, engine := hengine }
  | clearTrace => exact { h with trace := congrArg Recorder.clear h.trace }
  | saveTrace path => exact h.saveTrace path
  | setStaged on => exact { h with }
  | disassemble hex =>
    cases hr : readHex hex with
    | ok code => simpa only [Repl.command, hr] using h
    | error fault => simpa only [Repl.command, hr] using h
  | help | registers | stack | catalog | describe | history | trace | showStaged | stats | misuse => exact h

theorem execute (h : r.Alike r') (s : Statement) : (r.execute s).1.Alike (r'.execute s).1 := by
  have rest' : r'.engine.AtRest := h.engine ▸ h.rest
  obtain ⟨preview, hr⟩ := execute_eq h.rest s
  obtain ⟨preview', hr'⟩ := execute_eq rest' s
  rw [hr, hr', ← h.engine]
  exact { h with rest := h.rest.execute s.word s.operands, engine := rfl, trace := by rw [after, after, h.trace] }

/-- A line keeps loops alike. -/
theorem eval [FrameFormats] (h : r.Alike r') (line : Bytes) : (r.eval line).1.Alike (r'.eval line).1 := by
  unfold Repl.eval
  cases ReplInput.ofLine line with
  | blank | faulty => exact h
  | command c => exact h.command c
  | statement s =>
    apply Alike.execute
    exact { h with history := congrArg (Array.push · s.text) h.history }

theorem fed [FrameFormats] (h : r.Alike r') (lines : List Bytes) : (r.fed lines).Alike (r'.fed lines) := by
  induction lines generalizing r r' with
  | nil => exact h
  | cons line lines ih => exact ih (h.eval line)

end Alike

end Repl

/-- Staged mode is transparent. Two loops with the same engine options, which differ in the mode and its pause to begin
with, are the same after every line in all that they keep, and their engines are ready for the next one. What a
statement does to a loop, and the answer to it, are in either mode those of executing it. -/
theorem staged_mode_transparent [FrameFormats] (o : Options) (folder : Folder) (staged staged' : Bool)
    (delay delay' : Duration) (lines : List Bytes) :
    let r := Repl.fed { Repl.ofOptions o with folder, staged, delay } lines
    let r' := Repl.fed { Repl.ofOptions o with folder, staged := staged', delay := delay' } lines
    (r.engine.phase = .idle ∧ r'.engine.phase = .idle ∧ r.engine.snapshot = r'.engine.snapshot ∧
      r.engine.stats = r'.engine.stats ∧ r.trace.rows = r'.trace.rows ∧ r.history = r'.history ∧
      r.cursor = r'.cursor ∧ r.done = r'.done ∧ r.folder = r'.folder) ∧
    ∀ line s, ReplInput.ofLine line = .statement s →
      ∃ preview, r.eval line =
        (Repl.after { r with history := r.history.push s.text } (r.engine.execute s.word s.operands).settled,
          .executed preview (r.engine.execute s.word s.operands).settled.reply) := by
  intro r r'
  have hstart : Repl.Alike { Repl.ofOptions o with folder, staged, delay }
      { Repl.ofOptions o with folder, staged := staged', delay := delay' } :=
    ⟨Engine.atRest_ofOptions _, rfl, rfl, rfl, rfl, rfl, rfl⟩
  have h : r.Alike r' := hstart.fed lines
  refine ⟨?_, fun line s hs => ?_⟩
  · rw [← h.engine, ← h.trace]
    exact ⟨h.rest.idle, h.rest.idle, rfl, rfl, rfl, h.history, h.cursor, h.done, h.folder⟩
  · obtain ⟨preview, hexecute⟩ := Repl.execute_eq (r := { r with history := r.history.push s.text }) h.rest s
    refine ⟨preview, ?_⟩
    rw [Repl.eval, hs]
    exact hexecute

end StackMachine
