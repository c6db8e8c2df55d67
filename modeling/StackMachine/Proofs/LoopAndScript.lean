import StackMachine.Proofs.Bookkeeping
import StackMachine.Proofs.FirstWord
import StackMachine.Proofs.StagedMode

namespace StackMachine

/-- The error that a statement was answered with. -/
def ReplResponse.error? : ReplResponse → Option Error
  | .executed _ (.error error) => some error
  | _ => none

/-- Whether a script would not go on after the statement. -/
def ReplResponse.stops : ReplResponse → Bool
  | .executed _ (.error _) => true
  | .executed _ (.ok result) => result.halted
  | _ => false

namespace Repl

/-- The answers to some lines. -/
def answers [FrameFormats] (r : Repl) : List Bytes → List ReplResponse
  | [] => []
  | line :: lines => (r.eval line).2 :: (r.eval line).1.answers lines

/-- Lines cut after the first one whose statement fails or halts. -/
def untilStop [FrameFormats] (r : Repl) : List Bytes → List Bytes
  | [] => []
  | line :: lines => line :: if (r.eval line).2.stops then [] else (r.eval line).1.untilStop lines

theorem untilStop_initial [FrameFormats] (r : Repl) (lines : List Bytes) : List.IsPrefix (r.untilStop lines) lines := by
  induction lines generalizing r with
  | nil => exact List.prefix_rfl
  | cons line lines ih =>
    rw [untilStop, List.prefix_cons_inj]
    cases (r.eval line).2.stops with
    | true => exact List.nil_prefix
    | false => exact ih (r.eval line).1

end Repl

/-- A line that is read, and that the loop leaves to the engine. -/
structure LeftToEngine (line : Bytes) (o : Option Statement) : Prop where
  single : newline ∉ line
  parsed : parseLine line = .ok o
  input : ReplInput.ofLine line = o.elim .blank .statement

/-- The statements of lines that stand below some others. -/
def numbered (above : Nat) : List Bytes → List Statement
  | [] => []
  | line :: lines =>
    match parseLine line with
    | .ok (some s) => s.later above :: numbered (above + 1) lines
    | _ => numbered (above + 1) lines

theorem flatten_mapM_numbered {lines : List Bytes} (h : ∀ line ∈ lines, ∃ o, LeftToEngine line o) (above : Nat) :
    (List.flatten <$> (lines.zipIdx above).mapM fun p => movedDown p.2 (Option.toList <$> parseLine p.1)) =
      .ok (numbered above lines) := by
  induction lines generalizing above with
  | nil => rfl
  | cons line lines ih =>
    obtain ⟨⟨o, hline⟩, hlines⟩ := List.forall_mem_cons.mp h
    have hrest := ih hlines (above + 1)
    rw [List.zipIdx_cons, List.mapM_cons, numbered]
    simp only [hline.parsed]
    cases hm : (lines.zipIdx (above + 1)).mapM fun p => movedDown p.2 (Option.toList <$> parseLine p.1) with
    | error error =>
      rw [hm] at hrest
      cases hrest
    | ok rest =>
      rw [hm] at hrest
      cases o with
      | none => exact hrest
      | some s => exact congrArg (Except.map (s.later above :: ·)) hrest

theorem parse_joined {lines : List Bytes} (h : ∀ line ∈ lines, ∃ o, LeftToEngine line o) :
    parse (joined [newline] lines) = .ok (numbered 0 lines) := by
  by_cases hne : lines = []
  · rw [hne, joined, List.intercalate_nil, parse, tokens, tokensFrom]
    rfl
  · have hsingle : ∀ line ∈ lines, newline ∉ line := by
      intro line hmem
      obtain ⟨o, hline⟩ := h line hmem
      exact hline.single
    rw [← movedDown_zero (r := parse (joined [newline] lines)), joined, movedDown_parse_intercalate hne hsingle,
      flatten_mapM_numbered h]

theorem Recorder.recordAll_append (recorder : Recorder) (events : Array Event) (more : List Event) :
    recorder.recordAll (events ++ more) = (recorder.recordAll events).recordAll more.toArray := by
  simp [Recorder.recordAll, ← Array.foldl_toList]

namespace LeftToEngine

variable {line : Bytes} {lines : List Bytes}

theorem eval_blank [FrameFormats] (h : LeftToEngine line none) (r : Repl) : r.eval line = (r, .quiet) := by
  rw [Repl.eval, h.input]
  rfl

theorem eval_statement [FrameFormats] {s : Statement} (h : LeftToEngine line (some s)) (r : Repl) :
    r.eval line = Repl.execute { r with history := r.history.push s.text } s := by
  rw [Repl.eval, h.input]
  rfl

theorem numbered_blank (h : LeftToEngine line none) (above : Nat) :
    numbered above (line :: lines) = numbered (above + 1) lines := by
  rw [numbered, h.parsed]

theorem numbered_statement {s : Statement} (h : LeftToEngine line (some s)) (above : Nat) :
    numbered above (line :: lines) = s.later above :: numbered (above + 1) lines := by
  rw [numbered, h.parsed]

end LeftToEngine

namespace Repl

theorem execute_response (r : Repl) (s : Statement) : ∃ preview reply, (r.execute s).2 = .executed preview reply := by
  unfold execute
  split
  · dsimp only
    split <;> exact ⟨_, _, rfl⟩
  · exact ⟨_, _, rfl⟩

theorem execute_history (r : Repl) (s : Statement) : (r.execute s).1.history = r.history := by
  unfold execute
  split
  · dsimp only
    split <;> rfl
  · rfl

/-- Lines that the loop leaves to the engine are passed over in silence or executed. -/
theorem answers_of_lines [FrameFormats] (r : Repl) {lines : List Bytes} (h : ∀ line ∈ lines, ∃ o, LeftToEngine line o) :
    ∀ response ∈ r.answers lines, response = .quiet ∨ ∃ preview reply, response = .executed preview reply := by
  induction lines generalizing r with
  | nil => simp [answers]
  | cons line lines ih =>
    obtain ⟨⟨o, hline⟩, hlines⟩ := List.forall_mem_cons.mp h
    refine List.forall_mem_cons.mpr ⟨?_, ih (r.eval line).1 hlines⟩
    cases o with
    | none =>
      rw [hline.eval_blank]
      exact .inl rfl
    | some s =>
      rw [hline.eval_statement]
      exact .inr (execute_response _ s)

/-- The history takes up the statements of the lines. -/
theorem history_fed [FrameFormats] (r : Repl) {lines : List Bytes} (h : ∀ line ∈ lines, ∃ o, LeftToEngine line o)
    (above : Nat) :
    (r.fed lines).history.toList = r.history.toList ++ (numbered above lines).map Statement.text := by
  induction lines generalizing r above with
  | nil => exact (List.append_nil _).symm
  | cons line lines ih =>
    obtain ⟨⟨o, hline⟩, hlines⟩ := List.forall_mem_cons.mp h
    have hrest := ih (r.eval line).1 hlines (above + 1)
    cases o with
    | none =>
      rw [hline.numbered_blank]
      rw [hline.eval_blank] at hrest
      rw [← hrest, fed, List.foldl_cons, hline.eval_blank]
      rfl
    | some s =>
      have hpush : (r.eval line).1.history = r.history.push s.text := by
        rw [hline.eval_statement]
        exact execute_history _ s
      rw [hpush, Array.toList_push, List.append_assoc] at hrest
      rw [hline.numbered_statement]
      exact hrest

/-- The loop is where a run of statements is. -/
structure Abreast (r : Repl) (start : Recorder) (e : Engine) (events : Array Event) : Prop where
  rest : r.engine.AtRest
  engine : ∃ generation maxSteps stats, r.engine = e.booked generation maxSteps stats
  trace : r.trace = start.recordAll events

namespace Abreast

variable {r : Repl} {start : Recorder} {e : Engine} {events : Array Event}

theorem snapshot (h : r.Abreast start e events) : e.snapshot = r.engine.snapshot := by
  obtain ⟨generation, maxSteps, stats, hengine⟩ := h.engine
  rw [hengine]
  rfl

/-- A statement keeps the loop abreast of the run, and is answered as in the run. -/
theorem eval [FrameFormats] (h : r.Abreast start e events) {line : Bytes} {s : Statement}
    (hinput : ReplInput.ofLine line = .statement s) :
    let outcome := (e.execute s.word s.operands).settled
    (∃ preview, (r.eval line).2 = .executed preview outcome.reply) ∧
      (r.eval line).1.Abreast start outcome.engine (events ++ outcome.events) ∧
      (r.eval line).1.history = r.history.push s.text := by
  intro outcome
  obtain ⟨generation, maxSteps, stats, hengine⟩ := h.engine
  obtain ⟨e', reply, told, log, resets, entry, hoblivious⟩ := e.oblivious_execute s.word s.operands
  have hrun : outcome = _ := hoblivious e.generation e.maxSteps e.stats
  have hloop := hoblivious generation maxSteps stats
  rw [← hengine] at hloop
  obtain ⟨preview, hexecute⟩ := execute_eq (r := { r with history := r.history.push s.text }) h.rest s
  have hrest := h.rest.execute s.word s.operands
  dsimp only at hloop hexecute
  rw [hloop] at hrest hexecute
  rw [Repl.eval, hinput, hrun]
  dsimp only
  rw [hexecute]
  refine ⟨⟨preview, rfl⟩, ⟨hrest, ⟨_, _, _, rfl⟩, ?_⟩, rfl⟩
  rw [Recorder.recordAll_append, ← h.trace]
  rfl

end Abreast

/-- The loop after some lines is where a run ended, the last of the lines being the one that the run failed at. -/
structure EndsLike [FrameFormats] (r : Repl) (start : Recorder) (above : Nat) (lines : List Bytes) (run : ScriptRun) :
    Prop where
  snapshot : run.snapshot = (r.fed lines).engine.snapshot
  trace : (r.fed lines).trace = start.recordAll run.events
  failure : run.failure = ((r.answers lines).getLast?.bind ReplResponse.error?).map fun error =>
    .statement (above + lines.length) ((r.fed lines).history.back?.getD []) error

theorem EndsLike.cons [FrameFormats] {r : Repl} {start : Recorder} {above : Nat} {line : Bytes} {lines : List Bytes}
    {run : ScriptRun} (h : (r.eval line).1.EndsLike start (above + 1) lines run) (goes : (r.eval line).2.error? = none) :
    r.EndsLike start above (line :: lines) run := by
  refine ⟨h.snapshot, h.trace, ?_⟩
  have hlast : (r.answers (line :: lines)).getLast?.bind ReplResponse.error? =
      ((r.eval line).1.answers lines).getLast?.bind ReplResponse.error? := by
    rw [answers, List.getLast?_cons]
    cases ((r.eval line).1.answers lines).getLast? with
    | none => exact goes
    | some response => rfl
  have hlength : above + (line :: lines).length = above + 1 + lines.length := by
    rw [List.length_cons]
    omega
  rw [hlast, hlength, h.failure]
  rfl

theorem EndsLike.failed [FrameFormats] {r : Repl} {start : Recorder} {e : Engine} {events : Array Event}
    {line text : Bytes} {preview : Option Preview} {error : Error} (h : (r.eval line).1.Abreast start e events)
    (hresponse : (r.eval line).2 = .executed preview (.error error))
    (htext : (r.eval line).1.history.back? = some text) (above : Nat) (log : Array LogEntry) :
    r.EndsLike start above [line] ⟨e.snapshot, some (.statement (above + 1) text error), events, log⟩ := by
  refine ⟨h.snapshot, h.trace, ?_⟩
  have hback : (r.fed [line]).history.back? = some text := htext
  rw [answers, answers, hresponse, hback]
  rfl

/-- The lines up to the first one that stops take the loop where a run of their statements ends. -/
theorem Abreast.run [FrameFormats] {r : Repl} {start : Recorder} {e : Engine} {events : Array Event}
    (h : r.Abreast start e events) {o : ScriptOptions} (free : ∀ n, o.obstacle? n = none) {lines : List Bytes}
    (hlines : ∀ line ∈ lines, ∃ s, LeftToEngine line s) (above done : Nat) (log : Array LogEntry) :
    r.EndsLike start above (r.untilStop lines)
      (runStatements o done (numbered above (r.untilStop lines)) e events log) := by
  induction lines generalizing r e events above done log with
  | nil => exact ⟨h.snapshot, h.trace, rfl⟩
  | cons line lines ih =>
    obtain ⟨⟨parsed, hline⟩, hlines⟩ := List.forall_mem_cons.mp hlines
    rw [untilStop]
    cases parsed with
    | none =>
      have heval := hline.eval_blank r
      have hgoes : (r.eval line).2.error? = none := by rw [heval]; rfl
      have hnext : (r.eval line).1.Abreast start e events := by rwa [heval]
      have hstops : (r.eval line).2.stops = false := by rw [heval]; rfl
      rw [hstops, hline.numbered_blank]
      exact EndsLike.cons (ih hnext hlines (above + 1) done log) hgoes
    | some s =>
      obtain ⟨⟨preview, hresponse⟩, hnext, hhistory⟩ := h.eval hline.input
      have hword : (s.later above).word = s.word := rfl
      have hoperands : (s.later above).operands = s.operands := rfl
      rw [hline.numbered_statement, runStatements, free done]
      dsimp only
      rw [hword, hoperands]
      cases hreply : (e.execute s.word s.operands).settled.reply with
      | error error =>
        rw [hreply] at hresponse
        have hstops : (r.eval line).2.stops = true := by rw [hresponse]; rfl
        have htext : (r.eval line).1.history.back? = some (s.later above).text := by
          rw [hhistory, Array.back?_push]
          rfl
        have hnumber : (s.later above).line = above + 1 := by
          have hone := line_of_parseLine hline.single hline.parsed
          dsimp only [Statement.later]
          omega
        rw [hstops, hnumber]
        exact EndsLike.failed hnext hresponse htext above _
      | ok result =>
        rw [hreply] at hresponse
        have hgoes : (r.eval line).2.error? = none := by rw [hresponse]; rfl
        have hstops : (r.eval line).2.stops = result.halted := by rw [hresponse]; rfl
        rw [hstops]
        dsimp only
        cases hhalted : result.halted with
        | true => exact EndsLike.cons ⟨hnext.snapshot, hnext.trace, rfl⟩ hgoes
        | false => exact EndsLike.cons (ih hnext hlines (above + 1) (done + 1) _) hgoes

end Repl

/-- The loop and the script runner agree. Take lines that the parser accepts one by one and whose words are no commands
of the loop, and cut them after the first one that fails or halts. Typed into a fresh loop, in either mode, and run as
one script, they end with the same snapshot and the same trace. The history holds the statements of the script. The run
fails if and only if the last line was answered with an error, for that error and at that line; no line is answered with
anything but silence or an execution. A line whose word is a mnemonic is never taken for a command. -/
theorem loop_agrees_with_script [FrameFormats] (capacity : Int) (latch staged : Bool) (delay : Duration)
    (folder : Folder) {lines : List Bytes}
    (accepted : ∀ line ∈ lines, newline ∉ line ∧ ∃ o, parseLine line = .ok o ∧
      ∀ s ∈ o, ReplCommand.ofWords? [s.word] = none) :
    let r : Repl := { Repl.ofOptions { capacity, latch } with staged, delay, folder }
    let cut := r.untilStop lines
    let run := runScript { capacity, latch } (joined [newline] cut)
    (run.snapshot = (r.fed cut).engine.snapshot ∧
      (({ limit := 0 } : Recorder).recordAll run.events).rows = (r.fed cut).trace.rows ∧
      (∃ statements, parse (joined [newline] cut) = .ok statements ∧
        (r.fed cut).history.toList = statements.map Statement.text) ∧
      (run.failure = ((r.answers cut).getLast?.bind ReplResponse.error?).map fun error =>
        .statement cut.length ((r.fed cut).history.back?.getD []) error) ∧
      ∀ response ∈ r.answers cut, response = .quiet ∨ ∃ preview reply, response = .executed preview reply) ∧
    ∀ line s op, newline ∉ line → parseLine line = .ok (some s) → Opcode.ofName? s.word = some op →
      ReplInput.ofLine line = .statement s := by
  intro r cut run
  have hlines : ∀ line ∈ lines, ∃ o, LeftToEngine line o := by
    intro line hmem
    obtain ⟨hsingle, o, hparsed, hword⟩ := accepted line hmem
    exact ⟨o, hsingle, hparsed, ReplInput.ofLine_accepted hsingle hparsed hword⟩
  have hcut : ∀ line ∈ cut, ∃ o, LeftToEngine line o :=
    fun line hmem => hlines line ((r.untilStop_initial lines).subset hmem)
  have hparse : parse (joined [newline] cut) = .ok (numbered 0 cut) := parse_joined hcut
  have hrun : run = runStatements { capacity, latch } 0 (numbered 0 cut) (.ofOptions { capacity, latch }) #[] #[] := by
    simp only [run, runScript, hparse]
  have hstart : r.Abreast { limit := 0 } (.ofOptions { capacity, latch }) #[] :=
    ⟨Engine.atRest_ofOptions _, ⟨_, _, _, rfl⟩, rfl⟩
  have hend : r.EndsLike { limit := 0 } 0 cut run := by
    rw [hrun]
    exact hstart.run (fun n => rfl) hlines 0 0 #[]
  refine ⟨⟨hend.snapshot, ?_, ⟨_, hparse, r.history_fed hcut 0⟩, ?_, r.answers_of_lines hcut⟩, ?_⟩
  · rw [hend.trace]
  · rw [hend.failure, Nat.zero_add]
  · exact fun line s op => ReplInput.ofLine_opcode

/-- A comment, a blank line and four statements in staged mode, the last of which finds one value to add; the halt that
follows is cut off. -/
theorem loop_agrees_with_script_stopped :
    ∃ (lines cut : List Bytes) (r : Repl) (run : ScriptRun) (error : Error),
      lines = [utf8 "# sum", utf8 " psh 7", [], utf8 "\tPsh 3,", utf8 "add", utf8 "Add;twice", utf8 "hlt"] ∧
      r = { Repl.ofOptions { capacity := 2, latch := true } with staged := true, delay := .zero, folder := {} } ∧
      cut = r.untilStop lines ∧ run = runScript { capacity := 2, latch := true } (joined [newline] cut) ∧
      (∀ line ∈ lines, newline ∉ line ∧ ∃ o, parseLine line = .ok o ∧
        ∀ s ∈ o, ReplCommand.ofWords? [s.word] = none) ∧
      cut = lines.take 6 ∧ (r.answers cut).getLast?.bind ReplResponse.error? = some error ∧
      run.snapshot = (r.fed cut).engine.snapshot ∧ run.failure = some (.statement 6 (utf8 "ADD") error) := by
  let lines := [utf8 "# sum", utf8 " psh 7", [], utf8 "\tPsh 3,", utf8 "add", utf8 "Add;twice", utf8 "hlt"]
  have accepted : ∀ line ∈ lines, newline ∉ line ∧ ∃ o, parseLine line = .ok o ∧
      ∀ s ∈ o, ReplCommand.ofWords? [s.word] = none := by
    have hline : ∀ line ∈ lines, newline ∉ line ∧ (parseLine line).toOption.any fun o =>
        o.toList.all fun s => ReplCommand.ofWords? [s.word] = none := by decide +kernel
    intro line hmem
    obtain ⟨hfree, hparsed⟩ := hline line hmem
    cases hp : parseLine line with
    | error error => simp [hp, Except.toOption] at hparsed
    | ok o => exact ⟨hfree, o, rfl, by simpa [hp, Except.toOption] using hparsed⟩
  obtain ⟨⟨hsnapshot, -, -, hfailure, -⟩, -⟩ := loop_agrees_with_script 2 true true .zero {} accepted
  refine ⟨lines, _, _, _, ⟨utf8 "ADD", .stackShallow⟩, rfl, rfl, rfl, rfl, accepted, ?_, ?_, hsnapshot, ?_⟩
  · decide +kernel
  · decide +kernel
  · rw [hfailure]
    decide +kernel

end StackMachine
