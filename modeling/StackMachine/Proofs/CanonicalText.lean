import StackMachine.Proofs.EncodedScript
import StackMachine.Proofs.StatementText

namespace StackMachine

open InstructionTable

theorem glyphs_cons_ascii {c : UInt8} (hc : c < 0x80) (rest : Bytes) :
    glyphs (c :: rest) = loneGlyph c :: glyphs rest := by
  have hpair : ∀ b, isPair c b = false := by
    intro b
    grind [isPair]
  have htriple : ∀ b d, isTriple c b d = false := by
    intro b d
    grind [isTriple]
  have hquad : ∀ b d f, isQuad c b d f = false := by
    intro b d f
    grind [isQuad]
  match rest with
  | [] => rfl
  | [b] => simp [glyphs, hpair]
  | [b, d] => simp [glyphs, hpair, htriple]
  | b :: d :: f :: rest => simp [glyphs, hpair, htriple, hquad]

theorem glyphs_ascii {text : Bytes} (h : ∀ c ∈ text, c < 0x80) : glyphs text = text.map loneGlyph := by
  induction text with
  | nil => rfl
  | cons c rest ih =>
    obtain ⟨hc, hrest⟩ := List.forall_mem_cons.mp h
    rw [glyphs_cons_ascii hc, ih hrest, List.map_cons]

theorem bytes_loneGlyph : ∀ a : UInt8, (loneGlyph a).bytes = [a] :=
  forall_byte (by decide +kernel)

theorem loneGlyph_word : ∀ c : UInt8, c < 0x80 → isWordByte c = true → (loneGlyph c).isBlank = false :=
  forall_byte (by decide +kernel)

theorem dropWhile_eq_of_none {α : Type} {p : α → Bool} {xs : List α} (h : ∀ x ∈ xs, p x = false) :
    xs.dropWhile p = xs := by
  cases xs with
  | nil => rfl
  | cons x xs => simp [h x List.mem_cons_self]

/-- Without white space there is nothing to cut off. -/
theorem trimmed_ascii {text : Bytes} (h : ∀ c ∈ text, c < 0x80 ∧ (loneGlyph c).isBlank = false) : trimmed text = text := by
  have hglyphs := glyphs_ascii fun c hc => (h c hc).1
  have hblank : ∀ g ∈ text.map loneGlyph, g.isBlank = false := List.forall_mem_map.mpr fun c hc => (h c hc).2
  rw [trimmed, hglyphs, dropWhile_eq_of_none hblank,
    dropWhile_eq_of_none (fun g hg => hblank g (List.mem_reverse.mp hg)), List.reverse_reverse, ofGlyphs,
    List.flatMap_map, List.flatMap_congr fun c _ => bytes_loneGlyph c]
  exact List.flatMap_singleton' text

namespace IsName

variable {name : Bytes}

theorem trimmed_eq (h : IsName name) : trimmed name = name :=
  trimmed_ascii fun c hc => ⟨h.lt c hc, loneGlyph_word c (h.lt c hc) (h.word.isWordByte c hc)⟩

theorem ofName?_upper (h : IsName name) : Register.ofName? (StackMachine.upper name) = Register.ofName? name := by
  rw [Register.ofName?, Register.ofName?, h.upper.trimmed_eq, h.upper_upper, h.trimmed_eq]

end IsName

/-- A register of the operand is called by a name. -/
def Operand.Named : Operand → Prop
  | .reg name => IsName name
  | .imm _ => True

/-- The statement can have been read from a source of ASCII bytes. -/
structure Statement.Named (s : Statement) : Prop where
  word : ∃ word, IsName word ∧ s.word = upper word
  operands : ∀ o ∈ s.operands, o.Named

/-- The registers of the operand are spelled so. -/
def Operand.Spelled (P : Bytes → Prop) : Operand → Prop
  | .reg name => P name
  | .imm _ => True

/-- The names in the statement are spelled so, its word before it was put in upper case. -/
structure Statement.Spelled (P : Bytes → Prop) (s : Statement) : Prop where
  word : ∃ word, P word ∧ s.word = upper word
  operands : ∀ o ∈ s.operands, o.Spelled P

section Reading

variable {P : Bytes → Prop} {current : Option Statement} {t : Token} {ts : List Token} {statements : List Statement}

theorem Statement.Spelled.mono {Q : Bytes → Prop} {s : Statement} (h : s.Spelled P) (hPQ : ∀ word, P word → Q word) :
    s.Spelled Q := by
  obtain ⟨⟨word, hword, heq⟩, hoperands⟩ := h
  refine ⟨⟨word, hPQ word hword, heq⟩, ?_⟩
  intro o ho
  have hspelled := hoperands o ho
  cases o with
  | reg name => exact hPQ name hspelled
  | imm v => trivial

theorem operand_spelled {o : Operand} (ht : t.kind = .ident → P t.text) (h : t.operand = .ok o) : o.Spelled P := by
  unfold Token.operand at h
  cases hk : t.kind with
  | ident =>
    simp only [hk] at h
    cases h
    exact ht hk
  | int =>
    cases hi : int? t.text with
    | none => simp [hk, hi] at h
    | some v =>
      simp only [hk, hi] at h
      cases h
      trivial
  | eof | newline | comma | illegal => simp [hk] at h

theorem Takes.spelled {finished : List Statement} {next : Option Statement} (h : Takes current t finished next)
    (ht : t.kind = .ident → P t.text) (hcurrent : ∀ s ∈ current, s.Spelled P) :
    (∀ s ∈ finished, s.Spelled P) ∧ ∀ s ∈ next, s.Spelled P := by
  cases h with
  | ended kind => exact ⟨fun s hs => hcurrent s (Option.mem_toList.mp hs), by simp⟩
  | begun kind =>
    refine ⟨by simp, ?_⟩
    rintro s ⟨⟩
    exact ⟨⟨t.text, ht kind, rfl⟩, by simp⟩
  | skipped kind => exact ⟨by simp, hcurrent⟩
  | @added s _ o operand =>
    refine ⟨by simp, ?_⟩
    rintro s' ⟨⟩
    obtain ⟨hword, hoperands⟩ := hcurrent s rfl
    refine ⟨hword, List.forall_mem_append.mpr ⟨hoperands, ?_⟩⟩
    rintro o' ho
    rw [List.mem_singleton.mp ho]
    exact operand_spelled ht operand

theorem statementsFrom_spelled (hts : ∀ t ∈ ts, t.kind ≠ .eof ∧ (t.kind = .ident → P t.text))
    (hcurrent : ∀ s ∈ current, s.Spelled P) (h : statementsFrom current ts = .ok statements) :
    ∀ s ∈ statements, s.Spelled P := by
  induction ts generalizing current statements with
  | nil =>
    cases h
    exact fun s hs => hcurrent s (Option.mem_toList.mp hs)
  | cons t ts ih =>
    obtain ⟨⟨hkind, ht⟩, hts⟩ := List.forall_mem_cons.mp hts
    obtain ⟨finished, next, rest, htakes, hrest, rfl⟩ := statementsFrom_cons_ok hkind h
    obtain ⟨hfinished, hnext⟩ := htakes.spelled ht hcurrent
    exact List.forall_mem_append.mpr ⟨hfinished, ih hts hnext hrest⟩

/-- The names in statements are words of the source. -/
theorem spelled_of_parse {source : Bytes} (h : parse source = .ok statements) :
    ∀ s ∈ statements, s.Spelled fun word => IsWord word ∧ word ⊆ source := by
  obtain ⟨ts, hcovers⟩ := exists_covers 1 source
  have hwords : ∀ t ∈ ts, t.kind = .ident → IsWord t.text ∧ t.text ⊆ source := by
    intro t ht
    apply isWord_of_ident t
    rw [hcovers.ended]
    exact List.mem_append_left _ ht
  rw [hcovers.parse_eq] at h
  exact statementsFrom_spelled (fun t ht => ⟨hcovers.inside t ht, hwords t ht⟩) (by simp) h

theorem named_of_parse {source : Bytes} (hascii : isAscii source = true) (h : parse source = .ok statements) :
    ∀ s ∈ statements, s.Named := by
  have hname : ∀ word, IsWord word ∧ word ⊆ source → IsName word := fun word hword =>
    ⟨hword.1, List.all_eq_true.mpr fun c hc => List.all_eq_true.mp hascii c (hword.2 hc)⟩
  intro s hs
  obtain ⟨hword, hoperands⟩ := (spelled_of_parse h s hs).mono hname
  refine ⟨hword, ?_⟩
  intro o ho
  have hspelled := hoperands o ho
  cases o with
  | reg name => exact hspelled
  | imm v => trivial

end Reading

/-- Statements in written form, one to a line. -/
def sourceText (statements : List Statement) : Bytes := joined [newline] (statements.map Statement.text)

/-- The statements with registers in upper case and lines numbered from one. -/
def canonical (statements : List Statement) : List Statement :=
  statements.mapIdx fun i s => ⟨s.word, s.operands.map Operand.uppercased, i + 1⟩

theorem canonical_cons (s : Statement) (statements : List Statement) :
    canonical (s :: statements) =
      ⟨s.word, s.operands.map Operand.uppercased, 1⟩ :: (canonical statements).map (Statement.later 1) := by
  rw [canonical, List.mapIdx_cons, canonical]
  exact congrArg _ (List.ext_getElem (by simp) fun i h h' => by simp [Statement.later])

namespace Operand

variable {o : Operand}

theorem Named.readable (h : o.Named) : o.Readable := by
  cases o with
  | reg name => exact IsName.word (IsName.upper h)
  | imm v => trivial

theorem Named.text_uppercased (h : o.Named) : o.uppercased.text = o.text := by
  cases o with
  | reg name => exact IsName.upper_upper h
  | imm v => rfl

end Operand

namespace Statement.Named

variable {s : Statement}

theorem parse_text (h : s.Named) : parse s.text = .ok [⟨s.word, s.operands.map Operand.uppercased, 1⟩] := by
  obtain ⟨word, hword, heq⟩ := h.word
  have hparse := parse_lineText hword.upper.word fun o ho => (h.operands o ho).readable
  rw [hword.upper_upper, ← heq] at hparse
  exact hparse

theorem newline_not_mem (h : s.Named) : newline ∉ s.text := by
  obtain ⟨word, hword, heq⟩ := h.word
  rw [Statement.text, heq]
  exact newline_not_mem_lineText hword.upper.word fun o ho => (h.operands o ho).readable

theorem text_uppercased (h : s.Named) (line : Nat) :
    Statement.text ⟨s.word, s.operands.map Operand.uppercased, line⟩ = s.text := by
  have htexts : (s.operands.map Operand.uppercased).map Operand.text = s.operands.map Operand.text := by
    rw [List.map_map]
    exact List.map_congr_left fun o ho => (h.operands o ho).text_uppercased
  rw [Statement.text, Statement.text, lineText, lineText, htexts]

end Statement.Named

theorem parse_sourceText {statements : List Statement} (h : ∀ s ∈ statements, s.Named) :
    parse (sourceText statements) = .ok (canonical statements) := by
  induction statements with
  | nil => decide +kernel
  | cons s rest ih =>
    obtain ⟨hs, hrest⟩ := List.forall_mem_cons.mp h
    rw [canonical_cons]
    cases rest with
    | nil =>
      have hjoin : sourceText [s] = s.text := by simp [sourceText, joined, List.intercalate]
      rw [hjoin, hs.parse_text]
      rfl
    | cons next rest =>
      have hjoin : sourceText (s :: next :: rest) = s.text ++ newline :: sourceText (next :: rest) := by
        simp [sourceText, joined, List.intercalate]
      have hcount : s.text.count newline = 0 := List.count_eq_zero.mpr hs.newline_not_mem
      rw [hjoin, parse_append_newline, hcount, hs.parse_text, ih hrest]
      rfl

theorem sourceText_canonical {statements : List Statement} (h : ∀ s ∈ statements, s.Named) :
    sourceText (canonical statements) = sourceText statements := by
  have htexts : (canonical statements).map Statement.text = statements.map Statement.text := by
    induction statements with
    | nil => rfl
    | cons s rest ih =>
      obtain ⟨hs, hrest⟩ := List.forall_mem_cons.mp h
      have hmoved : ((canonical rest).map (Statement.later 1)).map Statement.text = (canonical rest).map Statement.text := by
        rw [List.map_map]
        rfl
      rw [canonical_cons, List.map_cons, hmoved, ih hrest, hs.text_uppercased, List.map_cons]
  rw [sourceText, htexts, sourceText]

/-- Computations that differ in no more than their errors, and not in the nature of these. -/
theorem mapError_eq_cases {ε κ α : Type} {f : ε → κ} {r r' : Except ε α} (h : r'.mapError f = r.mapError f) :
    (∃ x x', r = .error x ∧ r' = .error x' ∧ f x' = f x) ∨ ∃ a, r = .ok a ∧ r' = .ok a := by
  cases r with
  | error x =>
    cases r' with
    | error x' => exact .inl ⟨x, x', rfl, rfl, Except.error.inj h⟩
    | ok a => cases h
  | ok a =>
    cases r' with
    | error x' => cases h
    | ok a' =>
      cases h
      exact .inr ⟨a, rfl, rfl⟩

section Checking

variable {operands : List Operand}

theorem Operand.Named.operandCheck_uppercased {o : Operand} (h : o.Named) (kind : OperandKind) :
    operandCheck kind o.uppercased = operandCheck kind o := by
  cases o with
  | reg name => cases kind <;> simp [Operand.uppercased, operandCheck, IsName.ofName?_upper h]
  | imm v => rfl

theorem operandChecks_uppercased (h : ∀ o ∈ operands, o.Named) (kinds : List OperandKind) :
    operandChecks kinds (operands.map Operand.uppercased) = operandChecks kinds operands := by
  have hkinds : List.zipWith operandCheck kinds (operands.map Operand.uppercased) =
      List.zipWith operandCheck kinds operands := by
    induction operands generalizing kinds with
    | nil => rfl
    | cons o operands ih =>
      obtain ⟨ho, hrest⟩ := List.forall_mem_cons.mp h
      cases kinds with
      | nil => rfl
      | cons kind kinds =>
        rw [List.map_cons, List.zipWith_cons_cons, List.zipWith_cons_cons, ho.operandCheck_uppercased, ih hrest]
  rw [operandChecks, operandChecks, List.length_map, hkinds]

theorem canonical_uppercased {own : List Operand} (h : ∀ o ∈ operands, o.Named)
    (hc : List.Forall₂ Operand.Canonical operands own) :
    List.Forall₂ Operand.Canonical (operands.map Operand.uppercased) own := by
  induction hc with
  | nil => exact .nil
  | cons hfirst _ ih =>
    obtain ⟨ho, hrest⟩ := List.forall_mem_cons.mp h
    refine .cons ?_ (ih hrest)
    cases hfirst with
    | number v => exact .number v
    | register named => exact .register ((IsName.ofName?_upper ho).trans named)

/-- The case of registers changes no action, and no error but for the name that it quotes. -/
theorem Action.ofOperands_uppercased (h : ∀ o ∈ operands, o.Named) (op : Opcode) :
    (Action.ofOperands op (operands.map Operand.uppercased)).mapError Cause.kind =
      (Action.ofOperands op operands).mapError Cause.kind := by
  have hread := ofOperands_agrees op operands
  have hread' := ofOperands_agrees op (operands.map Operand.uppercased)
  rw [operandChecks_uppercased h] at hread'
  unfold Agrees at hread hread'
  cases hv : firstViolation (operandChecks op.definition.operands operands) with
  | some kind =>
    rw [hv] at hread hread'
    obtain ⟨cause, hcause, hkind⟩ := hread
    obtain ⟨cause', hcause', hkind'⟩ := hread'
    rw [hcause, hcause']
    exact congrArg Except.error (hkind'.trans hkind.symm)
  | none =>
    rw [hv] at hread hread'
    obtain ⟨action, haction, -⟩ := hread
    obtain ⟨action', haction', -⟩ := hread'
    obtain ⟨rfl, hcanonical⟩ := Action.canonical_of_ofOperands haction
    have hown := Action.ofOperands_canonical haction' (canonical_uppercased h hcanonical)
    rw [Action.ofOperands_operands] at hown
    cases hown
    rw [haction, haction']

end Checking

namespace Engine

variable {e : Engine} {operands : List Operand}

theorem plan_uppercased (h : ∀ o ∈ operands, o.Named) (op : Opcode) :
    (e.plan op.code (operands.map Operand.uppercased)).2.mapError Error.kind =
      (e.plan op.code operands).2.mapError Error.kind := by
  have hactions := Action.ofOperands_uppercased h op
  rw [plan_of_ofCode? e _ (Opcode.ofCode?_code op), plan_of_ofCode? e _ (Opcode.ofCode?_code op)]
  rcases mapError_eq_cases hactions with ⟨cause, cause', ha, ha', hkind⟩ | ⟨action, ha, ha'⟩
  · rw [ha, ha']
    exact congrArg Except.error hkind
  · rw [ha, ha']

/-- An instruction does the same to an engine at rest, whatever the case of its registers. -/
theorem execute_uppercased (rest : e.AtRest) (h : ∀ o ∈ operands, o.Named) (word : Bytes) :
    (e.execute word (operands.map Operand.uppercased)).settled.engine = (e.execute word operands).settled.engine ∧
      (e.execute word (operands.map Operand.uppercased)).settled.reply.mapError Error.kind =
        (e.execute word operands).settled.reply.mapError Error.kind := by
  unfold execute
  cases Opcode.ofName? word with
  | none => exact ⟨rfl, rfl⟩
  | some op =>
    have hplans := plan_uppercased (e := e) h op
    rcases mapError_eq_cases hplans with ⟨error, error', hp, hp', hkind⟩ | ⟨t, hp, hp'⟩
    · obtain ⟨hreply, hengine⟩ := dispatch_settled_error rest.free rest.idle hp
      obtain ⟨hreply', hengine'⟩ := dispatch_settled_error rest.free rest.idle hp'
      dsimp only
      rw [hreply, hreply', hengine, hengine']
      exact ⟨rfl, congrArg Except.error hkind⟩
    · obtain ⟨hreply, hengine⟩ := dispatch_settled_ok rest.free rest.idle hp
      obtain ⟨hreply', hengine'⟩ := dispatch_settled_ok rest.free rest.idle hp'
      dsimp only
      rw [hreply, hreply', hengine, hengine']
      exact ⟨rfl, rfl⟩

end Engine

/-- The nature of a failed script. -/
inductive FailureKind where
  | source
  | timeout
  | cancelled
  | statementLimit
  | statement (kind : Kind)
  deriving DecidableEq

def ScriptFailure.kind : ScriptFailure → FailureKind
  | .source _ => .source
  | .timeout => .timeout
  | .cancelled => .cancelled
  | .statementLimit => .statementLimit
  | .statement _ _ error => .statement error.kind

/-- The second statement is the first one, with its registers in upper case and possibly on another line. -/
structure Statement.Restated (s s' : Statement) : Prop where
  named : s.Named
  word_eq : s'.word = s.word
  operands_eq : s'.operands = s.operands.map Operand.uppercased

theorem Statement.Restated.execute {s s' : Statement} {e : Engine} (h : s.Restated s') (rest : e.AtRest) :
    (e.execute s'.word s'.operands).settled.engine = (e.execute s.word s.operands).settled.engine ∧
      (e.execute s'.word s'.operands).settled.reply.mapError Error.kind =
        (e.execute s.word s.operands).settled.reply.mapError Error.kind := by
  rw [h.word_eq, h.operands_eq]
  exact Engine.execute_uppercased rest h.named.operands s.word

theorem restated_canonical {statements : List Statement} (h : ∀ s ∈ statements, s.Named) :
    List.Forall₂ Statement.Restated statements (canonical statements) := by
  refine List.forall₂_iff_get.mpr ⟨by simp [canonical], fun i hi hi' => ?_⟩
  refine ⟨h _ (List.getElem_mem hi), ?_, ?_⟩ <;> simp [canonical]

theorem runStatements_restated {statements statements' : List Statement} (o : ScriptOptions)
    (h : List.Forall₂ Statement.Restated statements statements') {e : Engine} (rest : e.AtRest) (done : Nat)
    (events events' : Array Event) (log log' : Array LogEntry) :
    (runStatements o done statements' e events' log').snapshot = (runStatements o done statements e events log).snapshot ∧
      (runStatements o done statements' e events' log').failure.map ScriptFailure.kind =
        (runStatements o done statements e events log).failure.map ScriptFailure.kind := by
  induction h generalizing e done events events' log log' with
  | nil => exact ⟨rfl, rfl⟩
  | @cons s s' statements statements' hs _ ih =>
    unfold runStatements
    cases o.obstacle? done with
    | some failure => exact ⟨rfl, rfl⟩
    | none =>
      obtain ⟨hengine, hreply⟩ := hs.execute rest
      have hrest := rest.execute s.word s.operands
      rcases mapError_eq_cases hreply with ⟨error, error', hr, hr', hkind⟩ | ⟨result, hr, hr'⟩
      · simp only [hr, hr', hengine, Option.map_some, ScriptFailure.kind, hkind, and_self]
      · simp only [hr, hr', hengine]
        cases result.halted with
        | true => exact ⟨rfl, rfl⟩
        | false => exact ih hrest _ _ _ _ _

/-- What was read from a source of ASCII bytes can be written down again. The text has one statement to a line; it is
read as the same words and operands in the same order, registers in upper case; it is written the same way again; and
it runs to the same end as the source, however scripts are run. Any statements of names and numbers have such a text. -/
theorem canonical_text_faithful :
    (∀ (source : Bytes) (statements : List Statement), isAscii source = true → parse source = .ok statements →
      parse (sourceText statements) = .ok (canonical statements) ∧
      sourceText (canonical statements) = sourceText statements ∧
      ∀ o : ScriptOptions,
        (runScript o (sourceText statements)).snapshot = (runScript o source).snapshot ∧
        (runScript o (sourceText statements)).failure.map ScriptFailure.kind =
          (runScript o source).failure.map ScriptFailure.kind) ∧
    ∀ statements : List Statement, (∀ s ∈ statements, s.Named) →
      parse (sourceText statements) = .ok (canonical statements) := by
  refine ⟨fun source statements hascii hparse => ?_, fun statements hnamed => parse_sourceText hnamed⟩
  have hnamed := named_of_parse hascii hparse
  have htext := parse_sourceText hnamed
  refine ⟨htext, sourceText_canonical hnamed, fun o => ?_⟩
  simp only [runScript, hparse, htext]
  exact runStatements_restated o (restated_canonical hnamed) (Engine.atRest_ofOptions _) 0 _ _ _ _

/-- Literals in several bases, a comma without need, mixed case, and an unknown register that ends the run and is named
in the error as it is written; and a statement with both extremes of a word. -/
theorem canonical_text_faithful_mixed :
    (∃ statements,
      parse (utf8 "; begin\n\nset a, 0x1_F ; hex\r\n psh,-017\nMov a exA\nPSH +0b1_0\nlog Foo\nhlt") = .ok statements ∧
      sourceText statements = utf8 "SET A 31\nPSH -15\nMOV A EXA\nPSH 2\nLOG FOO\nHLT" ∧
      parse (sourceText statements) = .ok (canonical statements) ∧
      (runScript { capacity := 2 } (sourceText statements)).failure.map ScriptFailure.kind =
        some (.statement .invalidRegister)) ∧
    parse (utf8 "IF_1 X_2 -9223372036854775808 9223372036854775807") =
      .ok [⟨utf8 "IF_1", [.reg (utf8 "X_2"), .imm Int64.minValue, .imm Int64.maxValue], 1⟩] := by
  constructor
  · let source := utf8 "; begin\n\nset a, 0x1_F ; hex\r\n psh,-017\nMov a exA\nPSH +0b1_0\nlog Foo\nhlt"
    let statements : List Statement :=
      [⟨utf8 "SET", [.reg (utf8 "a"), .imm 31], 3⟩, ⟨utf8 "PSH", [.imm (-15)], 4⟩,
        ⟨utf8 "MOV", [.reg (utf8 "a"), .reg (utf8 "exA")], 5⟩, ⟨utf8 "PSH", [.imm 2], 6⟩,
        ⟨utf8 "LOG", [.reg (utf8 "Foo")], 7⟩, ⟨utf8 "HLT", [], 8⟩]
    have hparse : parse source = .ok statements := by decide +kernel
    obtain ⟨hread, -, hruns⟩ := canonical_text_faithful.1 source statements (by decide +kernel) hparse
    refine ⟨statements, hparse, by decide +kernel, hread, ?_⟩
    rw [(hruns { capacity := 2 }).2]
    decide +kernel
  · have hword : IsName (utf8 "if_1") := ⟨⟨by decide, by decide +kernel⟩, by decide +kernel⟩
    have hregister : IsName (utf8 "x_2") := ⟨⟨by decide, by decide +kernel⟩, by decide +kernel⟩
    have hnamed : Statement.Named
        ⟨utf8 "IF_1", [.reg (utf8 "x_2"), .imm Int64.minValue, .imm Int64.maxValue], 9⟩ := by
      refine ⟨⟨_, hword, by decide +kernel⟩, ?_⟩
      simp [Operand.Named, hregister]
    have htext := canonical_text_faithful.2 _ (List.forall_mem_singleton.mpr hnamed)
    have hwritten : sourceText
        [⟨utf8 "IF_1", [.reg (utf8 "x_2"), .imm Int64.minValue, .imm Int64.maxValue], 9⟩] =
        utf8 "IF_1 X_2 -9223372036854775808 9223372036854775807" := by decide +kernel
    rw [hwritten] at htext
    rw [htext]
    decide +kernel

end StackMachine
