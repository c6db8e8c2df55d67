import Mathlib.Data.List.TakeWhile
import StackMachine.Proofs.FirstWord
import StackMachine.Proofs.LineByLine
import StackMachine.Proofs.StagedMode

namespace StackMachine

section Input

/-- Every text is made of lines that a line feed ends, and of what follows the last line feed. -/
theorem exists_terminated (input : Bytes) : ∃ (lines : List Bytes) (last : Bytes),
    (∀ line ∈ lines, newline ∉ line) ∧ newline ∉ last ∧ input = lines.flatMap (· ++ [newline]) ++ last := by
  induction input with
  | nil => exact ⟨[], [], by simp, by simp, rfl⟩
  | cons c rest ih =>
    obtain ⟨lines, last, hlines, hlast, rfl⟩ := ih
    by_cases hc : c = newline
    · exact ⟨[] :: lines, last, List.forall_mem_cons.mpr ⟨by simp, hlines⟩, hlast, by simp [hc]⟩
    · cases lines with
      | nil => exact ⟨[], c :: last, by simp, List.not_mem_cons_of_ne_of_not_mem (Ne.symm hc) hlast, rfl⟩
      | cons line lines =>
        obtain ⟨hline, hlines⟩ := List.forall_mem_cons.mp hlines
        have hfirst : newline ∉ c :: line := List.not_mem_cons_of_ne_of_not_mem (Ne.symm hc) hline
        exact ⟨(c :: line) :: lines, last, List.forall_mem_cons.mpr ⟨hfirst, hlines⟩, hlast, by simp⟩

variable {lines : List Bytes} {last : Bytes}

theorem terminated_unique {lines' : List Bytes} {last' : Bytes} (hlines : ∀ line ∈ lines, newline ∉ line)
    (hlast : newline ∉ last) (hlines' : ∀ line ∈ lines', newline ∉ line) (hlast' : newline ∉ last')
    (h : lines.flatMap (· ++ [newline]) ++ last = lines'.flatMap (· ++ [newline]) ++ last') :
    lines' = lines ∧ last' = last := by
  have hsplit := congrArg (splitOn newline) h
  rw [splitOn_terminated hlines hlast, splitOn_terminated hlines' hlast'] at hsplit
  obtain ⟨heq, hend⟩ := List.append_inj' hsplit.symm rfl
  exact ⟨heq, List.singleton_inj.mp hend⟩

theorem inputLines_terminated (hlines : ∀ line ∈ lines, newline ∉ line) (hlast : newline ∉ last) :
    Repl.inputLines (lines.flatMap (· ++ [newline]) ++ last) = lines ++ if last = [] then [] else [last] := by
  rw [Repl.inputLines, splitOn_terminated hlines hlast]
  simp only [List.getLast?_append, List.getLast?_singleton, Option.some_or, Option.some.injEq, List.dropLast_concat]
  split
  next => rw [List.append_nil]
  next => rfl

end Input

/-- Whether a line asks the loop to end: its first word does, in any case of its letters. -/
def quits (line : Bytes) : Bool :=
  (words line).head?.any fun word => [utf8 "quit", utf8 "exit", utf8 "q"].contains (lower word)

theorem ReplCommand.ofWords?_eq_quit_iff (word : Bytes) (rest : List Bytes) :
    ofWords? (word :: rest) = some .quit ↔ [utf8 "quit", utf8 "exit", utf8 "q"].contains (lower word) = true := by
  have hbranch : ∀ {p : Prop} [Decidable p] {c : ReplCommand} {x : Option ReplCommand}, c ≠ .quit → x ≠ some .quit →
      (if p then some c else x) ≠ some .quit := by
    intro p _ c x hc hx
    split
    next => simpa using hc
    next => exact hx
  have htrace : ofTraceWords rest ≠ .quit := by
    unfold ofTraceWords
    grind
  have hstaged : ofStagedWords rest ≠ .quit := by
    unfold ofStagedWords
    grind
  have hname : [utf8 "quit", utf8 "exit", utf8 "q"].contains (lower word) = true ↔
      lower word = utf8 "quit" ∨ lower word = utf8 "exit" ∨ lower word = utf8 "q" := by
    simp
  rw [hname]
  by_cases hquit : lower word = utf8 "quit" ∨ lower word = utf8 "exit" ∨ lower word = utf8 "q"
  · have hfirst : ofWords? (word :: rest) = some .quit := by
      unfold ofWords?
      exact if_pos hquit
    exact iff_of_true hfirst hquit
  · -- no command after the first one in the list is the one that quits
    have hother : ofWords? (word :: rest) ≠ some .quit := by
      unfold ofWords?
      dsimp only
      rw [if_neg hquit]
      cases rest with
      | nil | cons =>
        exact hbranch nofun <| hbranch nofun <| hbranch nofun <| hbranch nofun <| hbranch nofun <| hbranch nofun <|
          hbranch nofun <| hbranch htrace <| hbranch hstaged <| hbranch nofun <| hbranch nofun nofun
    exact iff_of_false hother hquit

theorem ReplInput.ofLine_eq_quit_iff (line : Bytes) : ofLine line = .command .quit ↔ quits line = true := by
  unfold ofLine quits
  cases hwords : words line with
  | nil => simp
  | cons word more =>
    have hquit := ReplCommand.ofWords?_eq_quit_iff word more
    rw [List.head?_cons, Option.any_some, ← hquit]
    cases hcommand : ReplCommand.ofWords? (word :: more) with
    | some c => simp
    | none => cases parseLine line <;> grind

def ReplCommand.mode? : ReplCommand → Option Bool
  | .setStaged on => some on
  | _ => none

/-- The mode that a line switches to. -/
def modeSet? (line : Bytes) : Option Bool :=
  match ReplInput.ofLine line with
  | .command c => c.mode?
  | _ => none

/-- The lines up to and including the first one that quits. -/
def untilQuit (given : List Bytes) : List Bytes :=
  given.take (given.findIdx (fun line => quits (Repl.dropReturn line)) + 1)

/-- The lines that the loop reads: a line that does not fit into its buffer ends it too. -/
def heard (given : List Bytes) : List Bytes := (untilQuit given).takeWhile fun line => line.length < Repl.lineLimit

section Heard

variable {line : Bytes} {rest : List Bytes}

theorem untilQuit_cons (line : Bytes) (rest : List Bytes) :
    untilQuit (line :: rest) = line :: if quits (Repl.dropReturn line) then [] else untilQuit rest := by
  cases h : quits (Repl.dropReturn line) <;> simp [untilQuit, List.findIdx_cons, h]

theorem heard_nil : heard [] = [] := by rw [heard, untilQuit, List.take_nil, List.takeWhile_nil]

theorem heard_long (h : Repl.lineLimit ≤ line.length) : heard (line :: rest) = [] := by
  have hlength : ¬ line.length < Repl.lineLimit := Nat.not_lt.mpr h
  rw [heard, untilQuit_cons, List.takeWhile_cons_of_neg (by simpa using hlength)]

theorem heard_quit (h : ¬ Repl.lineLimit ≤ line.length) (hq : quits (Repl.dropReturn line) = true) :
    heard (line :: rest) = [line] := by
  have hlength : line.length < Repl.lineLimit := Nat.lt_of_not_le h
  rw [heard, untilQuit_cons, if_pos hq, List.takeWhile_cons_of_pos (by simpa using hlength), List.takeWhile_nil]

theorem heard_cons (h : ¬ Repl.lineLimit ≤ line.length) (hq : quits (Repl.dropReturn line) = false) :
    heard (line :: rest) = line :: heard rest := by
  have hlength : line.length < Repl.lineLimit := Nat.lt_of_not_le h
  rw [heard, untilQuit_cons, if_neg (by simp [hq]), List.takeWhile_cons_of_pos (by simpa using hlength), heard]

end Heard

namespace Repl

/-- What the loop prints while it evaluates lines: before each of them the prompt of the mode in force, and after it the
answer. -/
def transcript [FrameFormats] (r : Repl) : List Bytes → Bytes
  | [] => []
  | line :: lines => r.prompt ++ (r.eval line).2.text ++ (r.eval line).1.transcript lines

variable {r : Repl}

theorem saveTrace_keeps [FrameFormats] (r : Repl) (path : Bytes) :
    (r.saveTrace path).1.done = r.done ∧ (r.saveTrace path).1.staged = r.staged := by
  unfold saveTrace
  cases hformat : Format.ofPath path with
  | error error => exact ⟨rfl, rfl⟩
  | ok format =>
    dsimp only
    cases hsave : r.trace.frame.save none r.folder path format.text with
    | mk folder failure =>
      cases failure with
      | none | some error => exact ⟨rfl, rfl⟩

theorem execute_keeps (r : Repl) (s : Statement) :
    (r.execute s).1.done = r.done ∧ (r.execute s).1.staged = r.staged := by
  unfold execute
  dsimp only
  split
  next =>
    split
    next => exact ⟨rfl, rfl⟩
    next => exact ⟨rfl, rfl⟩
  next => exact ⟨rfl, rfl⟩

theorem command_keeps [FrameFormats] {c : ReplCommand} (hquit : c ≠ .quit) :
    (r.command c).1.done = r.done ∧ (r.command c).1.staged = c.mode?.getD r.staged := by
  cases c with
  | quit => exact absurd rfl hquit
  | saveTrace path => exact r.saveTrace_keeps path
  | disassemble hex =>
    rw [command]
    cases readHex hex with
    | ok | error => exact ⟨rfl, rfl⟩
  | setStaged | help | registers | stack | catalog | describe | next | reset | history | trace | clearTrace | showStaged
  | stats | misuse => exact ⟨rfl, rfl⟩

/-- A line ends the loop only by its first word, and switches the mode only where it says so. -/
theorem eval_keeps [FrameFormats] (r : Repl) (line : Bytes) :
    (r.eval line).1.done = (r.done || quits line) ∧ (r.eval line).1.staged = (modeSet? line).getD r.staged := by
  have hquits := ReplInput.ofLine_eq_quit_iff line
  unfold eval modeSet?
  cases hline : ReplInput.ofLine line with
  | blank | faulty =>
    rw [hline] at hquits
    have hnot : quits line = false := by simpa using hquits
    simp only [hnot, Bool.or_false, Option.getD_none, and_self]
  | statement s =>
    rw [hline] at hquits
    have hnot : quits line = false := by simpa using hquits
    rw [hnot, Bool.or_false]
    exact execute_keeps _ s
  | command c =>
    rw [hline, ReplInput.command.injEq] at hquits
    dsimp only
    by_cases hquit : c = .quit
    · rw [hquits.mp hquit, hquit]
      exact ⟨(Bool.or_true _).symm, rfl⟩
    · have hnot : quits line = false := by simpa [hquit] using hquits
      rw [hnot, Bool.or_false]
      exact command_keeps hquit

theorem fed_cons [FrameFormats] (r : Repl) (line : Bytes) (lines : List Bytes) :
    r.fed (line :: lines) = (r.eval line).1.fed lines := rfl

theorem done_fed [FrameFormats] (r : Repl) (lines : List Bytes) : (r.fed lines).done = (r.done || lines.any quits) := by
  induction lines generalizing r with
  | nil => exact (Bool.or_false _).symm
  | cons line lines ih => rw [fed_cons, ih, (r.eval_keeps line).1, List.any_cons, Bool.or_assoc]

theorem staged_fed [FrameFormats] (r : Repl) (lines : List Bytes) :
    (r.fed lines).staged = (lines.reverse.findSome? modeSet?).getD r.staged := by
  induction lines generalizing r with
  | nil => rfl
  | cons line lines ih =>
    rw [fed_cons, ih, (r.eval_keeps line).2, List.reverse_cons, List.findSome?_append, Option.getD_or,
      List.findSome?_singleton]

/-- A loop that has ended reads nothing and prints nothing. -/
theorem converse_done [FrameFormats] (h : r.done = true) (given : List Bytes) : r.converse given = (r, []) := by
  cases given with
  | nil => simp only [converse, h, if_true]
  | cons line rest => simp only [converse, h, if_true]

theorem converse_eq [FrameFormats] (fresh : r.done = false) (given : List Bytes) :
    r.converse given =
      (r.fed ((heard given).map dropReturn),
        r.transcript ((heard given).map dropReturn) ++
          if (r.fed ((heard given).map dropReturn)).done then [] else (r.fed ((heard given).map dropReturn)).prompt) := by
  induction given generalizing r with
  | nil =>
    rw [converse, heard_nil, List.map_nil, transcript, List.nil_append]
    rfl
  | cons line rest ih =>
    have hdone := (r.eval_keeps (dropReturn line)).1
    rw [fresh, Bool.false_or] at hdone
    have hfresh : ¬ r.done = true := by simp [fresh]
    by_cases hlong : lineLimit ≤ line.length
    · rw [converse, if_neg hfresh, if_pos hlong, heard_long hlong, List.map_nil, transcript, List.nil_append]
      exact congrArg (Prod.mk r) (if_neg hfresh).symm
    · rw [converse, if_neg hfresh, if_neg hlong]
      cases hquits : quits (dropReturn line) with
      | true =>
        rw [hquits] at hdone
        rw [heard_quit hlong hquits, List.map_cons, List.map_nil, fed_cons, transcript]
        simp only [converse_done hdone]
        simp [fed, transcript, hdone]
      | false =>
        rw [hquits] at hdone
        rw [heard_cons hlong hquits, List.map_cons, fed_cons, transcript]
        simp only [ih hdone, List.append_assoc]

end Repl

/-- The loop evaluates its lines one by one. An input is lines that a line feed ends and what follows the last of them,
which counts if there is anything. Of these, each without a carriage return at its end, the loop evaluates exactly those
up to the first one that quits, but stops short of the first one of 65536 bytes or more; so it reaches the line that quits,
or the end, exactly if no such line comes before. It prints the prompt of the mode in force before every read. -/
theorem loop_evaluates_lines [FrameFormats] (r : Repl) (fresh : r.done = false) :
    (∀ input : Bytes, ∃! text : List Bytes × Bytes, (∀ line ∈ text.1, newline ∉ line) ∧ newline ∉ text.2 ∧
      input = text.1.flatMap (· ++ [newline]) ++ text.2) ∧
    (∀ (lines : List Bytes) (last : Bytes), (∀ line ∈ lines, newline ∉ line) → newline ∉ last →
      let given := lines ++ if last = [] then [] else [last]
      let final := r.fed ((heard given).map Repl.dropReturn)
      r.start (lines.flatMap (· ++ [newline]) ++ last) =
        (final, Repl.greeting ++
          (r.transcript ((heard given).map Repl.dropReturn) ++ if final.done then [] else final.prompt)) ∧
      (final.done = true ↔ ∃ line ∈ heard given, quits (Repl.dropReturn line) = true) ∧
      (heard given = untilQuit given ↔ ∀ line ∈ untilQuit given, line.length < 65536)) ∧
    ∀ before : List Bytes, (r.fed before).prompt =
      if (before.reverse.findSome? modeSet?).getD r.staged then utf8 "svm*> " else utf8 "svm> " := by
  refine ⟨fun input => ?_, fun lines last hlines hlast => ?_, fun before => ?_⟩
  · obtain ⟨lines, last, hlines, hlast, rfl⟩ := exists_terminated input
    refine ⟨(lines, last), ⟨hlines, hlast, rfl⟩, ?_⟩
    rintro ⟨lines', last'⟩ ⟨hlines', hlast', heq⟩
    obtain ⟨h, h'⟩ := terminated_unique hlines hlast hlines' hlast' heq
    exact Prod.ext h h'
  · intro given final
    refine ⟨?_, ?_, ?_⟩
    · rw [Repl.start, inputLines_terminated hlines hlast, Repl.converse_eq fresh]
    · rw [Repl.done_fed, fresh, Bool.false_or, List.any_map, List.any_eq_true]
      rfl
    · exact List.takeWhile_eq_self_iff.trans (forall₂_congr fun _ _ => decide_eq_true_iff)
  · rw [Repl.prompt, Repl.staged_fed]
    split <;> rfl

/-- A mode switched by a line that ends in a carriage return, a command in capitals, and a line after it that is not
read. -/
theorem loop_evaluates_lines_quit :
    (Repl.ofOptions {}).done = false ∧
    ∃ r text, (Repl.ofOptions {}).start (utf8 "staged on\r\nPSH 1\nQuit now\nPSH 2") = (r, text) ∧
      r.engine.sp = 0 ∧ r.done = true ∧
      text = Repl.greeting ++
        (utf8 "svm> Staged mode: on (delay 0s)\nsvm*> => PSH: pushed 1 -> stack[0]\nsvm*> Goodbye!\n") := by
  have hlines : ∀ line ∈ [utf8 "staged on\r", utf8 "PSH 1", utf8 "Quit now"], newline ∉ line := by decide +kernel
  have hinput : utf8 "staged on\r\nPSH 1\nQuit now\nPSH 2" =
      [utf8 "staged on\r", utf8 "PSH 1", utf8 "Quit now"].flatMap (· ++ [newline]) ++ utf8 "PSH 2" := by decide +kernel
  have hheard : (heard ([utf8 "staged on\r", utf8 "PSH 1", utf8 "Quit now"] ++
      if utf8 "PSH 2" = [] then [] else [utf8 "PSH 2"])).map Repl.dropReturn =
        [utf8 "staged on", utf8 "PSH 1", utf8 "Quit now"] := by decide +kernel
  obtain ⟨-, hstart, -⟩ := loop_evaluates_lines (Repl.ofOptions {}) rfl
  obtain ⟨hevaluated, -⟩ := hstart _ (utf8 "PSH 2") hlines (by decide +kernel)
  rw [hheard] at hevaluated
  rw [hinput]
  refine ⟨rfl, _, _, hevaluated, ?_⟩
  decide +kernel

theorem words_blanks (n : Nat) : words (List.replicate n (byte ' ')) = [] := by
  induction n with
  | zero => rfl
  | succ n ih => rw [List.replicate_succ, words_gap rfl, ih]

/-- A line that is too long ends the loop before its time, even if there is nothing in it: the statement after it is not
evaluated, nor is anybody told. -/
theorem long_line_ends_loop :
    ∃ lines : List Bytes, lines = [utf8 "PSH 1", List.replicate 65536 (byte ' '), utf8 "PSH 2"] ∧
      (∀ line ∈ lines, newline ∉ line ∧ quits line = false) ∧
      ((Repl.ofOptions {}).start (lines.flatMap (· ++ [newline]))).1.engine.sp = 0 ∧
      ((Repl.ofOptions {}).fed lines).engine.sp = 1 := by
  -- the blanks stay behind a name, so that nothing writes them out
  obtain ⟨long, hdef⟩ : ∃ long, long = List.replicate 65536 (byte ' ') := ⟨_, rfl⟩
  have hfree : newline ∉ long := by
    rw [hdef]
    intro h
    cases List.eq_of_mem_replicate h
  have hquits : quits long = false := by
    rw [hdef, quits, words_blanks]
    rfl
  have hover : Repl.lineLimit ≤ long.length := by
    rw [hdef, List.length_replicate]
    exact Nat.le_refl _
  have hblank (r : Repl) : (r.eval long).1 = r := by
    have hempty : ReplInput.ofLine long = .blank := by
      rw [hdef, ReplInput.ofLine, words_blanks]
      rfl
    rw [Repl.eval, hempty]
  have hshort : (newline ∉ utf8 "PSH 1" ∧ quits (utf8 "PSH 1") = false) ∧ newline ∉ utf8 "PSH 2" ∧
      quits (utf8 "PSH 2") = false := by decide +kernel
  have hlines : ∀ line ∈ [utf8 "PSH 1", long, utf8 "PSH 2"], newline ∉ line ∧ quits line = false :=
    List.forall_mem_cons.mpr ⟨hshort.1, List.forall_mem_cons.mpr ⟨⟨hfree, hquits⟩, List.forall_mem_singleton.mpr hshort.2⟩⟩
  have hinput := inputLines_terminated (fun line hmem => (hlines line hmem).1) (List.not_mem_nil : newline ∉ [])
  rw [List.append_nil, if_pos rfl, List.append_nil] at hinput
  have hheard : heard [utf8 "PSH 1", long, utf8 "PSH 2"] = [utf8 "PSH 1"] := by
    have hfits : ¬ Repl.lineLimit ≤ (utf8 "PSH 1").length := by decide +kernel
    rw [heard_cons hfits (by decide +kernel), heard_long hover]
  rw [← hdef]
  refine ⟨_, rfl, hlines, ?_, ?_⟩
  · rw [Repl.start, hinput, Repl.converse_eq rfl, hheard]
    decide +kernel
  · rw [Repl.fed_cons, Repl.fed_cons, hblank]
    decide +kernel

end StackMachine
