import Mathlib.Data.List.Forall2
import Mathlib.Data.List.Induction
import StackMachine.Proofs.LineByLine
import StackMachine.Proofs.MaximalMunch

namespace StackMachine

namespace Lexeme

/-- The operand that the lexeme stands for after the word of a line. -/
def operand? : Lexeme → Option Operand
  | .word text => some (.reg text)
  | .number text => (int? text).map .imm
  | .comma | .other _ => none

/-- The lexeme may follow the word of a line. -/
def Admitted : Lexeme → Prop
  | .word _ | .comma => True
  | .number text => ∃ v, int? text = some v
  | .other _ => False

/-- What is wrong with a lexeme that cannot stand where it stands, at the beginning of its line or after the word. -/
def fault (line : Nat) : (first : Bool) → Lexeme → SourceError
  | true, t => .badStart line (t.token line).kind (t.token line).text
  | false, .number text => .badInteger line text
  | false, t => .unexpected line (t.token line).text

end Lexeme

inductive LineForm : List Lexeme → Prop
  | blank : LineForm []
  | statement {w : Bytes} {rest : List Lexeme} (admitted : ∀ t ∈ rest, t.Admitted) : LineForm (.word w :: rest)

/-- The statement of a line. -/
def statementOf (line : Nat) : List Lexeme → Option Statement
  | .word w :: rest => some ⟨upper w, rest.filterMap Lexeme.operand?, line⟩
  | _ => none

section OneLine

attribute [local simp] ok_bind error_bind map_ok map_error Except.map

variable {t : Lexeme} {ls : List Lexeme} {line : Nat}

/-- A list that fails has a first element with which it fails. -/
theorem exists_first_failure {α : Type} {P : List α → Prop} (hnil : P []) (xs : List α) :
    P xs ∨ ∃ before x after, xs = before ++ x :: after ∧ P before ∧ ¬ P (before ++ [x]) := by
  induction xs using List.reverseRecOn with
  | nil => exact .inl hnil
  | append_singleton xs x ih =>
    rcases ih with hxs | ⟨before, y, after, rfl, hbefore, hy⟩
    · by_cases hx : P (xs ++ [x])
      · exact .inl hx
      · exact .inr ⟨xs, x, [], rfl, hxs, hx⟩
    · exact .inr ⟨before, y, after ++ [x], by simp, hbefore, hy⟩

theorem Lexeme.kind_token_ne_eof (t : Lexeme) (line : Nat) : (t.token line).kind ≠ .eof := by
  cases t <;> simp [Lexeme.token]

theorem readToken_admitted (h : t.Admitted) (s : Statement) :
    readToken (some s) (t.token line) = .ok ([], some { s with operands := s.operands ++ t.operand?.toList }) := by
  cases t with
  | word text => rfl
  | number text =>
    obtain ⟨v, hv⟩ := h
    simp [readToken, Lexeme.token, Token.operand, Lexeme.operand?, hv, Statement.addOperand]
  | comma => simp [readToken, Lexeme.token, Lexeme.operand?]
  | other c => exact h.elim

theorem readToken_fault (h : ¬ t.Admitted) (s : Statement) :
    readToken (some s) (t.token line) = .error (t.fault line false) := by
  cases t with
  | word text | comma => exact absurd trivial h
  | number text =>
    have hnone : int? text = none := Option.eq_none_iff_forall_ne_some.mpr fun v hv => h ⟨v, hv⟩
    simp [readToken, Lexeme.token, Token.operand, Lexeme.fault, hnone]
  | other c => rfl

/-- Lexemes that may follow the word of a line become operands one after the other. -/
theorem statementsFrom_admitted (h : ∀ t ∈ ls, t.Admitted) (s : Statement) (ts : List Token) :
    statementsFrom (some s) (ls.map (Lexeme.token line) ++ ts) =
      statementsFrom (some { s with operands := s.operands ++ ls.filterMap Lexeme.operand? }) ts := by
  induction ls generalizing s with
  | nil => simp
  | cons t ls ih =>
    obtain ⟨ht, hls⟩ := List.forall_mem_cons.mp h
    have hrest : ∀ r : Except SourceError (List Statement), ([] ++ ·) <$> r = r := by
      intro r
      cases r <;> rfl
    rw [List.map_cons, List.cons_append, statementsFrom_cons (t.kind_token_ne_eof line), readToken_admitted ht, ok_bind,
      hrest, ih hls, List.append_assoc]
    have hoperands : t.operand?.toList ++ ls.filterMap Lexeme.operand? = (t :: ls).filterMap Lexeme.operand? := by
      cases ho : t.operand? <;> simp [ho]
    rw [hoperands]

theorem statementsFrom_lineForm (h : LineForm ls) :
    statementsFrom none (ls.map (Lexeme.token line)) = .ok (statementOf line ls).toList := by
  cases h with
  | blank => rfl
  | @statement w rest admitted =>
    have hread : readToken none (Lexeme.token line (.word w)) = .ok ([], some ⟨upper w, [], line⟩) := rfl
    rw [List.map_cons, statementsFrom_cons (by simp [Lexeme.token]), hread, ok_bind,
      ← List.append_nil (rest.map (Lexeme.token line)), statementsFrom_admitted admitted]
    rfl

theorem statementsFrom_fault {before after : List Lexeme} (hbefore : LineForm before)
    (ht : ¬ LineForm (before ++ [t])) :
    statementsFrom none ((before ++ t :: after).map (Lexeme.token line)) = .error (t.fault line before.isEmpty) := by
  cases hbefore with
  | blank =>
    have hread : readToken none (t.token line) = .error (t.fault line true) := by
      cases t with
      | word text => exact absurd (.statement fun u hu => (List.not_mem_nil hu).elim) ht
      | number text | comma | other c => rfl
    rw [List.nil_append, List.map_cons, statementsFrom_cons (t.kind_token_ne_eof line), hread]
    rfl
  | @statement w rest admitted =>
    have hadmitted : ¬ t.Admitted := fun h =>
      ht (.statement (List.forall_mem_append.mpr ⟨admitted, List.forall_mem_singleton.mpr h⟩))
    have hread : readToken none (Lexeme.token line (.word w)) = .ok ([], some ⟨upper w, [], line⟩) := rfl
    rw [List.cons_append, List.map_cons, List.map_append, List.map_cons, statementsFrom_cons (by simp [Lexeme.token]),
      hread, ok_bind, statementsFrom_admitted admitted, statementsFrom_cons (t.kind_token_ne_eof line),
      readToken_fault hadmitted]
    rfl

end OneLine

/-- The lexemes of a line. -/
def LineReads (line : Bytes) (ls : List Lexeme) : Prop := Munched (uncommented line) ls

section Lines

variable {lines : List Bytes} {all : List (List Lexeme)}

/-- What a line gives that stands a number of lines further down. -/
theorem movedDown_parseLine {line : Bytes} {ls : List Lexeme} (hline : newline ∉ line) (h : LineReads line ls)
    (above : Nat) :
    movedDown above (Option.toList <$> parseLine line) =
      statementsFrom none (ls.map (Lexeme.token (above + 1))) := by
  have hinside : ∀ t ∈ ls.map (Lexeme.token 1), t.kind ≠ .eof :=
    List.forall_mem_map.mpr fun t _ => t.kind_token_ne_eof 1
  have hlater : (ls.map (Lexeme.token 1)).map (Token.later above) = ls.map (Lexeme.token (above + 1)) := by
    rw [List.map_map]
    apply List.map_congr_left
    intro t ht
    cases t <;> simp [Lexeme.token, Token.later, Nat.add_comm]
  rw [parseLine_eq hline, parse, tokens, tokensFrom_munched hline h, statementsFrom_eof hinside,
    ← statementsFrom_later above hinside, hlater]
  rfl

theorem mapM_parseLine (hlines : ∀ line ∈ lines, newline ∉ line) (h : List.Forall₂ LineReads lines all) (above : Nat) :
    ((lines.zipIdx above).mapM fun p => movedDown p.2 (Option.toList <$> parseLine p.1)) =
      (all.zipIdx (above + 1)).mapM fun p => statementsFrom none (p.1.map (Lexeme.token p.2)) := by
  induction h generalizing above with
  | nil => rfl
  | cons hread hrest ih =>
    obtain ⟨hline, hlines⟩ := List.forall_mem_cons.mp hlines
    rw [List.zipIdx_cons, List.zipIdx_cons, List.mapM_cons, List.mapM_cons, movedDown_parseLine hline hread,
      ih hlines]

theorem mapM_ok {ε α β : Type} {f : α → Except ε β} {g : α → β} {xs : List α} (h : ∀ x ∈ xs, f x = .ok (g x)) :
    xs.mapM f = .ok (xs.map g) := by
  induction xs with
  | nil => rfl
  | cons x xs ih =>
    obtain ⟨hx, hxs⟩ := List.forall_mem_cons.mp h
    rw [List.mapM_cons, hx, ih hxs]
    rfl

theorem mapM_error {ε α β : Type} {f : α → Except ε β} {g : α → β} {before after : List α} {x : α} {e : ε}
    (h : ∀ y ∈ before, f y = .ok (g y)) (hx : f x = .error e) : (before ++ x :: after).mapM f = .error e := by
  rw [List.mapM_append, mapM_ok h, List.mapM_cons, hx]
  rfl

/-- A source is read as the lexemes of its lines. -/
theorem parse_eq_mapM {source : Bytes} (h : List.Forall₂ LineReads (source.splitOn newline) all) :
    parse source =
      List.flatten <$> (all.zipIdx 1).mapM fun p => statementsFrom none (p.1.map (Lexeme.token p.2)) := by
  have hlines : ∀ line ∈ source.splitOn newline, newline ∉ line := fun line hmem =>
    not_mem_of_mem_splitOn (splitOn_eq source ▸ hmem)
  have hwhole := movedDown_parse_intercalate (List.splitOn_ne_nil newline source) hlines 0
  rwa [List.intercalate_splitOn, movedDown_zero, mapM_parseLine hlines h] at hwhole

theorem parse_of_lineForms {source : Bytes} (h : List.Forall₂ LineReads (source.splitOn newline) all)
    (hall : ∀ ls ∈ all, LineForm ls) :
    parse source = .ok ((all.zipIdx 1).filterMap fun p => statementOf p.2 p.1) := by
  have hok : ∀ p ∈ all.zipIdx 1, statementsFrom none (p.1.map (Lexeme.token p.2)) =
      .ok (statementOf p.2 p.1).toList := fun p hp =>
    statementsFrom_lineForm (hall p.1 (List.fst_mem_of_mem_zipIdx hp))
  rw [parse_eq_mapM h, mapM_ok hok, List.filterMap_eq_flatMap_toList]
  rfl

theorem parse_of_fault {source : Bytes} {above below : List (List Lexeme)} {before after : List Lexeme} {t : Lexeme}
    (h : List.Forall₂ LineReads (source.splitOn newline) (above ++ (before ++ t :: after) :: below))
    (habove : ∀ ls ∈ above, LineForm ls) (hbefore : LineForm before) (ht : ¬ LineForm (before ++ [t])) :
    parse source = .error (t.fault (above.length + 1) before.isEmpty) := by
  have hok : ∀ p ∈ above.zipIdx 1, statementsFrom none (p.1.map (Lexeme.token p.2)) =
      .ok (statementOf p.2 p.1).toList := fun p hp =>
    statementsFrom_lineForm (habove p.1 (List.fst_mem_of_mem_zipIdx hp))
  rw [parse_eq_mapM h, List.zipIdx_append, List.zipIdx_cons, Nat.add_comm 1,
    mapM_error hok (statementsFrom_fault hbefore ht)]
  rfl

theorem exists_lineReads (h : ∀ line ∈ lines, newline ∉ line) : ∃ all, List.Forall₂ LineReads lines all := by
  induction lines with
  | nil => exact ⟨[], .nil⟩
  | cons line lines ih =>
    obtain ⟨hline, hlines⟩ := List.forall_mem_cons.mp h
    obtain ⟨ls, hls⟩ := exists_munched hline
    obtain ⟨all, hall⟩ := ih hlines
    exact ⟨ls :: all, .cons hls hall⟩

theorem lineReads_unique : Relator.RightUnique LineReads := fun _ _ _ h h' => h'.unique h

end Lines

/-- The message of a fault names its line. -/
theorem message_fault (line : Nat) (first : Bool) (t : Lexeme) :
    utf8 "syntax error: line " ++ decimalNat line ++ utf8 ": " <+: (t.fault line first).message := by
  have hline : utf8 "syntax error: line " = utf8 "syntax error: " ++ utf8 "line " := rfl
  have hcolon : ∀ text ∈ [": statement starts with ", ": invalid integer: ", ": unexpected token: "],
      utf8 ": " <+: utf8 text := by decide +kernel
  simp only [List.forall_mem_cons] at hcolon
  obtain ⟨hstart, hinteger, htoken, -⟩ := hcolon
  have hsame : ∀ {colon detail rest : Bytes}, colon <+: detail →
      utf8 "syntax error: " ++ utf8 "line " ++ decimalNat line ++ colon <+:
        utf8 "syntax error: " ++ (utf8 "line " ++ decimalNat line ++ detail ++ rest) := by
    rintro colon detail rest ⟨more, rfl⟩
    exact ⟨more ++ rest, by simp⟩
  rw [hline, SourceError.message]
  cases first with
  | true =>
    rw [Lexeme.fault, SourceError.detail, List.append_assoc _ (utf8 " "), List.append_assoc _ _ (utf8 " " ++ _)]
    exact hsame hstart
  | false =>
    cases t with
    | number text => exact hsame hinteger
    | word text | comma | other c => exact hsame htoken

/-- The parser accepts its grammar and nothing else. The lines of a source, each up to its first comment, are cut into
lexemes by maximal munch in one way. There are statements exactly if every line is empty or a word followed by commas,
words and readable numbers, and then they are one for each line that is not empty, with the word in upper case and the
words and numbers after it as operands. Otherwise the error names the line of the first lexeme that no line could hold
there. -/
theorem parse_accepts_grammar (source : Bytes) :
    ∃ lines : List (List Lexeme),
      List.Forall₂ (fun line ls => Munched (uncommented line) ls) (source.splitOn newline) lines ∧
      (∀ lines', List.Forall₂ (fun line ls => Munched (uncommented line) ls) (source.splitOn newline) lines' →
        lines' = lines) ∧
      ((∃ statements, parse source = .ok statements) ↔ ∀ line ∈ lines, LineForm line) ∧
      (∀ statements, parse source = .ok statements →
        statements = (lines.zipIdx 1).filterMap fun p => statementOf p.2 p.1) ∧
      ∀ e, parse source = .error e → ∃ above before t after below,
        lines = above ++ (before ++ t :: after) :: below ∧ (∀ line ∈ above, LineForm line) ∧
        LineForm before ∧ ¬ LineForm (before ++ [t]) ∧ e = t.fault (above.length + 1) before.isEmpty ∧
        utf8 "syntax error: line " ++ decimalNat (above.length + 1) ++ utf8 ": " <+: e.message := by
  have hlines : ∀ line ∈ source.splitOn newline, newline ∉ line := fun line hmem =>
    not_mem_of_mem_splitOn (splitOn_eq source ▸ hmem)
  obtain ⟨lines, hread⟩ := exists_lineReads hlines
  refine ⟨lines, hread, fun lines' h => List.right_unique_forall₂' lineReads_unique h hread, ?_⟩
  rcases exists_first_failure (P := fun lines => ∀ line ∈ lines, LineForm line) (by simp) lines with
    hall | ⟨above, line, below, rfl, habove, hfails⟩
  · have hparse := parse_of_lineForms hread hall
    refine ⟨⟨fun _ => hall, fun _ => ⟨_, hparse⟩⟩, fun statements h => ?_, fun e h => ?_⟩
    · rw [hparse] at h
      cases h
      rfl
    · rw [hparse] at h
      cases h
  · have hline : ¬ LineForm line := fun h =>
      hfails (List.forall_mem_append.mpr ⟨habove, List.forall_mem_singleton.mpr h⟩)
    obtain hform | ⟨before, t, after, rfl, hbefore, ht⟩ := exists_first_failure LineForm.blank line
    · exact absurd hform hline
    have hparse := parse_of_fault hread habove hbefore ht
    refine ⟨⟨fun ⟨statements, h⟩ => ?_, fun h => ?_⟩, fun statements h => ?_, fun e h => ?_⟩
    · rw [hparse] at h
      cases h
    · exact absurd (h _ (List.mem_append_right above List.mem_cons_self)) hline
    · rw [hparse] at h
      cases h
    · rw [hparse] at h
      cases h
      exact ⟨above, before, t, after, below, rfl, habove, hbefore, ht, rfl, message_fault _ _ _⟩

/-- Lexemes without blanks between them and a comment after them, and below them a word beyond ASCII with a number that
is none in base eight. -/
theorem parse_accepts_grammar_octal :
    ∃ lines : List (List Lexeme),
      List.Forall₂ (fun line ls => Munched (uncommented line) ls)
        ((utf8 "mov_1-2,,B;+\n" ++ 0xE9 :: utf8 " 08 09").splitOn newline) lines ∧
      (¬ ∀ line ∈ lines, LineForm line) ∧
      ∃ above before after below, lines = above ++ (before ++ .number (utf8 "08") :: after) :: below ∧
        above.length = 1 ∧ LineForm before := by
  obtain ⟨lines, hread, -, haccepts, -, hfails⟩ := parse_accepts_grammar (utf8 "mov_1-2,,B;+\n" ++ 0xE9 :: utf8 " 08 09")
  have hparse : parse (utf8 "mov_1-2,,B;+\n" ++ 0xE9 :: utf8 " 08 09") = .error (.badInteger 2 (utf8 "08")) := by
    decide +kernel
  obtain ⟨above, before, t, after, below, rfl, -, hbefore, -, hfault, -⟩ := hfails _ hparse
  have ht : t = .number (utf8 "08") ∧ above.length = 1 := by
    cases hempty : before.isEmpty with
    | true =>
      rw [hempty] at hfault
      cases hfault
    | false =>
      rw [hempty] at hfault
      cases t with
      | number text =>
        obtain ⟨hplace, rfl⟩ := SourceError.badInteger.inj hfault
        exact ⟨rfl, by omega⟩
      | word text | comma | other c => cases hfault
  refine ⟨_, hread, ?_, above, before, after, below, by rw [ht.1], ht.2, hbefore⟩
  rw [← haccepts]
  rintro ⟨statements, h⟩
  rw [hparse] at h
  cases h

end StackMachine
