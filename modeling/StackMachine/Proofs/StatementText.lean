import StackMachine.Proofs.LineGrammar
import StackMachine.Proofs.NumberText

namespace StackMachine

theorem upperByte_word : ∀ c : UInt8, (startsWord c = true → startsWord (upperByte c) = true) ∧
    (isWordByte c = true → isWordByte (upperByte c) = true) :=
  forall_byte (by decide +kernel)

theorem upperByte_ascii : ∀ c : UInt8, c < 0x80 → upperByte c < 0x80 ∧ upperByte (upperByte c) = upperByte c :=
  forall_byte (by decide +kernel)

/-- A name as it can stand in a source of ASCII bytes. -/
structure IsName (name : Bytes) : Prop where
  word : IsWord name
  ascii : isAscii name = true

namespace IsName

variable {name : Bytes}

theorem lt (h : IsName name) : ∀ c ∈ name, c < 0x80 := by
  have hascii := h.ascii
  rw [isAscii, List.all_eq_true] at hascii
  intro c hc
  simpa using hascii c hc

theorem upper_eq (h : IsName name) : upper name = name.map upperByte := by
  rw [upper, if_pos h.ascii]

theorem upper (h : IsName name) : IsName (StackMachine.upper name) := by
  have hupper := h.upper_eq
  rw [hupper]
  constructor
  · match name, h.word with
    | c :: rest, ⟨hc, hrest⟩ =>
      refine ⟨(upperByte_word c).1 hc, List.forall_mem_map.mpr fun b hb => ?_⟩
      exact (upperByte_word b).2 (hrest b hb)
  · simp only [isAscii, List.all_map, List.all_eq_true, Function.comp_apply, decide_eq_true_eq]
    intro c hc
    exact (upperByte_ascii c (h.lt c hc)).1

theorem upper_upper (h : IsName name) : StackMachine.upper (StackMachine.upper name) = StackMachine.upper name := by
  rw [h.upper.upper_eq, h.upper_eq, List.map_map]
  apply List.map_congr_left
  intro c hc
  exact (upperByte_ascii c (h.lt c hc)).2

end IsName

/-- The operand with its register in upper case. -/
def Operand.uppercased : Operand → Operand
  | .reg name => .reg (upper name)
  | .imm v => .imm v

/-- A register of the operand has the upper-case form of a word. -/
def Operand.Readable : Operand → Prop
  | .reg name => IsWord (upper name)
  | .imm _ => True

/-- An operand in a line, with its text and what separates it from the text before. -/
structure Argument where
  separator : Bytes
  text : Bytes
  operand : Operand

namespace Argument

variable {a : Argument} {args : List Argument}

def lexeme (a : Argument) : Lexeme :=
  match a.operand with
  | .reg _ => .word a.text
  | .imm _ => .number a.text

/-- The commas of a separator. -/
def commas (separator : Bytes) : List Lexeme :=
  separator.filterMap fun c => if c = byte ',' then some .comma else none

def lexemes (a : Argument) : List Lexeme := commas a.separator ++ [a.lexeme]

/-- Blanks or commas stand before the operand, and its text is a word or a number that stands for it. -/
structure Proper (a : Argument) : Prop where
  separated : a.separator ≠ []
  separator : ∀ c ∈ a.separator, isGapByte c = true ∨ c = byte ','
  valid : a.lexeme.Valid
  operand_eq : a.lexeme.operand? = some a.operand

theorem not_word_of_separator (c : UInt8) (h : isGapByte c = true ∨ c = byte ',') : isWordByte c = false := by
  rw [isGapByte_iff, eq_comma_iff] at h
  rw [← Bool.not_eq_true, isWordByte_iff, startsWord_iff, isDigitByte_iff]
  omega

theorem tokensFrom_separator {separator : Bytes} (h : ∀ c ∈ separator, isGapByte c = true ∨ c = byte ',') (line : Nat)
    (rest : Bytes) :
    tokensFrom line (separator ++ rest) = (commas separator).map (Lexeme.token line) ++ tokensFrom line rest := by
  induction separator with
  | nil => rfl
  | cons c separator ih =>
    obtain ⟨hc, hseparator⟩ := List.forall_mem_cons.mp h
    rcases hc with hgap | rfl
    · have hne : c ≠ byte ',' := by
        rintro rfl
        cases hgap
      have hcommas : commas (c :: separator) = commas separator := by simp [commas, hne]
      rw [List.cons_append, tokensFrom_gap hgap, ih hseparator, hcommas]
    · have hread : Token.ReadFrom ⟨.comma, [byte ','], line⟩ [byte ','] (separator ++ rest) := .comma
      have hcomma : tokensFrom line (byte ',' :: (separator ++ rest)) =
          ⟨.comma, [byte ','], line⟩ :: tokensFrom line (separator ++ rest) := hread.tokensFrom_eq
      rw [List.cons_append, hcomma, ih hseparator]
      rfl

theorem Proper.tokensFrom_text {rest : Bytes} (h : a.Proper) (hrest : Closes rest) (line : Nat) :
    tokensFrom line (a.text ++ rest) = a.lexeme.token line :: tokensFrom line rest := by
  have hvalid := h.valid
  unfold lexeme at hvalid ⊢
  cases ho : a.operand with
  | reg name =>
    rw [ho] at hvalid
    exact tokensFrom_word hvalid hrest line
  | imm v =>
    rw [ho] at hvalid
    exact tokensFrom_number hvalid hrest line

theorem eq_comma_of_mem_commas {separator : Bytes} {t : Lexeme} (h : t ∈ commas separator) : t = .comma := by
  obtain ⟨c, -, hc⟩ := List.mem_filterMap.mp h
  split at hc
  next => exact (Option.some.inj hc).symm
  next => cases hc

theorem Proper.admitted (h : a.Proper) : ∀ t ∈ a.lexemes, t.Admitted := by
  refine List.forall_mem_append.mpr ⟨fun t ht => ?_, List.forall_mem_singleton.mpr ?_⟩
  · rw [eq_comma_of_mem_commas ht]
    trivial
  · have hoperand := h.operand_eq
    cases ht : a.lexeme with
    | word text | comma => trivial
    | number text =>
      rw [ht] at hoperand
      obtain ⟨v, hv, -⟩ := Option.map_eq_some_iff.mp hoperand
      exact ⟨v, hv⟩
    | other c =>
      rw [ht] at hoperand
      cases hoperand

theorem Proper.filterMap_lexemes (h : a.Proper) : a.lexemes.filterMap Lexeme.operand? = [a.operand] := by
  have hcommas : (commas a.separator).filterMap Lexeme.operand? = [] := by
    rw [List.filterMap_eq_nil_iff]
    intro t ht
    rw [eq_comma_of_mem_commas ht]
    rfl
  rw [lexemes, List.filterMap_append, hcommas, List.nil_append, List.filterMap_cons, h.operand_eq]
  rfl

/-- Arguments as they follow a word. -/
def texts (args : List Argument) : Bytes := args.flatMap fun a => a.separator ++ a.text

theorem closes_texts (h : ∀ a ∈ args, a.Proper) : Closes (texts args) := by
  cases args with
  | nil => rfl
  | cons a args =>
    obtain ⟨ha, -⟩ := List.forall_mem_cons.mp h
    obtain ⟨c, more, hmore⟩ := List.exists_cons_of_ne_nil ha.separated
    have hc := not_word_of_separator c (ha.separator c (hmore ▸ List.mem_cons_self))
    simp [Closes, texts, hmore, hc]

theorem tokensFrom_texts (h : ∀ a ∈ args, a.Proper) (line : Nat) :
    tokensFrom line (texts args) = (args.flatMap lexemes).map (Lexeme.token line) ++ [⟨.eof, [], line⟩] := by
  induction args with
  | nil => rw [texts, List.flatMap_nil, tokensFrom]; rfl
  | cons a args ih =>
    obtain ⟨ha, hargs⟩ := List.forall_mem_cons.mp h
    have hcons : texts (a :: args) = a.separator ++ (a.text ++ texts args) := by simp [texts]
    rw [hcons, tokensFrom_separator ha.separator, ha.tokensFrom_text (closes_texts hargs), ih hargs, List.flatMap_cons,
      lexemes]
    simp

theorem filterMap_lexemes (h : ∀ a ∈ args, a.Proper) :
    (args.flatMap lexemes).filterMap Lexeme.operand? = args.map Argument.operand := by
  induction args with
  | nil => rfl
  | cons a args ih =>
    obtain ⟨ha, hargs⟩ := List.forall_mem_cons.mp h
    rw [List.flatMap_cons, List.filterMap_append, ha.filterMap_lexemes, ih hargs]
    rfl

end Argument

/-- A word and arguments are read as a statement. -/
theorem parse_arguments {word : Bytes} {args : List Argument} (hw : IsWord word) (h : ∀ a ∈ args, a.Proper) :
    parse (word ++ Argument.texts args) = .ok [⟨upper word, args.map Argument.operand, 1⟩] := by
  have htokens : tokens (word ++ Argument.texts args) =
      (.word word :: args.flatMap Argument.lexemes).map (Lexeme.token 1) ++ [⟨.eof, [], 1⟩] := by
    rw [tokens, tokensFrom_word hw (Argument.closes_texts h), Argument.tokensFrom_texts h]
    rfl
  have hform : LineForm (.word word :: args.flatMap Argument.lexemes) := by
    refine .statement fun t ht => ?_
    obtain ⟨a, ha, hmem⟩ := List.mem_flatMap.mp ht
    exact (h a ha).admitted t hmem
  have hinside : ∀ t ∈ (.word word :: args.flatMap Argument.lexemes).map (Lexeme.token 1), t.kind ≠ .eof :=
    List.forall_mem_map.mpr fun t _ => t.kind_token_ne_eof 1
  rw [parse, htokens, statementsFrom_eof hinside, statementsFrom_lineForm hform, statementOf,
    Argument.filterMap_lexemes h]
  rfl

/-- Operands as they follow a word. -/
def operandsText (operands : List Operand) : Bytes := operands.flatMap fun o => byte ' ' :: o.text

theorem lineText_eq (word : Bytes) (operands : List Operand) : lineText word operands = word ++ operandsText operands := by
  induction operands generalizing word with
  | nil => simp [lineText, joined, List.intercalate, operandsText]
  | cons o operands ih =>
    have hcons : lineText word (o :: operands) = word ++ byte ' ' :: lineText o.text operands := by
      have hblank : utf8 " " = [byte ' '] := by decide +kernel
      simp [lineText, joined, List.intercalate, hblank]
    rw [hcons, ih]
    rfl

/-- The operand in the line that shows it. -/
def Operand.argument (o : Operand) : Argument := ⟨[byte ' '], o.text, o.uppercased⟩

theorem Operand.Readable.proper {o : Operand} (h : o.Readable) : o.argument.Proper := by
  refine ⟨List.cons_ne_nil _ _, List.forall_mem_singleton.mpr (.inl rfl), ?_, ?_⟩
  · cases o with
    | reg name => exact h
    | imm v => exact isNumber_value v
  · cases o with
    | reg name => rfl
    | imm v => exact congrArg (Option.map Operand.imm) (int?_value v)

/-- A written line is read as what was written, in upper case. -/
theorem parse_lineText {word : Bytes} {operands : List Operand} (hw : IsWord word) (h : ∀ o ∈ operands, o.Readable) :
    parse (lineText word operands) = .ok [⟨upper word, operands.map Operand.uppercased, 1⟩] := by
  have hproper : ∀ a ∈ operands.map Operand.argument, a.Proper := List.forall_mem_map.mpr fun o ho => (h o ho).proper
  have htexts : Argument.texts (operands.map Operand.argument) = operandsText operands := by
    rw [Argument.texts, List.flatMap_map]
    rfl
  rw [lineText_eq, ← htexts, parse_arguments hw hproper, List.map_map]
  rfl

theorem newline_not_mem_lineText {word : Bytes} {operands : List Operand} (hw : IsWord word)
    (h : ∀ o ∈ operands, o.Readable) : newline ∉ lineText word operands := by
  rw [lineText_eq, List.mem_append, operandsText, List.mem_flatMap]
  rintro (hmem | ⟨o, ho, hmem⟩)
  · exact hw.newline_not_mem hmem
  · have htext : newline ∉ o.text := by
      cases o with
      | reg name => exact IsWord.newline_not_mem (h _ ho)
      | imm v => exact (isNumber_value v).newline_not_mem
    rcases List.mem_cons.mp hmem with heq | hmem
    · exact absurd heq (by decide)
    · exact htext hmem

end StackMachine
