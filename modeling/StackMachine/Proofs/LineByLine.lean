import StackMachine.Proofs.Lexing
import StackMachine.Proofs.SplitText
import StackMachine.Statement

namespace StackMachine

def Statement.later (n : Nat) (s : Statement) : Statement := { s with line := s.line + n }

def SourceError.later (n : Nat) : SourceError → SourceError
  | .badStart line kind text => .badStart (line + n) kind text
  | .badInteger line text => .badInteger (line + n) text
  | .unexpected line text => .unexpected (line + n) text
  | .notOne count => .notOne count

/-- What a text gives that stands a number of lines further down. -/
def movedDown (n : Nat) : Except SourceError (List Statement) → Except SourceError (List Statement)
  | .ok statements => .ok (statements.map (Statement.later n))
  | .error e => .error (e.later n)

/-- The statements of two texts, the first of which stands above the other. -/
def followedBy : (upper lower : Except SourceError (List Statement)) → Except SourceError (List Statement)
  | .error e, _ => .error e
  | .ok _, .error e => .error e
  | .ok first, .ok rest => .ok (first ++ rest)

section Placing

variable {r r' : Except SourceError (List Statement)}

theorem movedDown_followedBy (n : Nat) :
    movedDown n (followedBy r r') = followedBy (movedDown n r) (movedDown n r') := by
  cases r <;> cases r' <;> simp [followedBy, movedDown]

theorem movedDown_movedDown (m n : Nat) : movedDown n (movedDown m r) = movedDown (m + n) r := by
  cases r with
  | error e => cases e <;> simp [movedDown, SourceError.later, Nat.add_assoc]
  | ok statements => simp [movedDown, Statement.later, Nat.add_assoc]

theorem movedDown_zero : movedDown 0 r = r := by
  cases r with
  | error e => cases e <;> rfl
  | ok statements => exact congrArg Except.ok (List.map_id statements)

end Placing

/-- What the reader does with one token: the statement that the token ends, if any, and the one that is being read
after it. -/
def readToken (current : Option Statement) (t : Token) : Except SourceError (List Statement × Option Statement) :=
  match current, t.kind with
  | _, .newline => .ok (current.toList, none)
  | none, _ => t.statement.map fun s => ([], some s)
  | some s, .comma => .ok ([], some s)
  | some s, _ => t.operand.map fun o => ([], some (s.addOperand o))

section Results

variable {ε α β : Type}

theorem ok_bind (a : α) (f : α → Except ε β) : (Except.ok a >>= f) = f a := rfl

theorem error_bind (e : ε) (f : α → Except ε β) : (Except.error e >>= f) = .error e := rfl

theorem map_ok (f : α → β) (a : α) : (f <$> Except.ok a : Except ε β) = .ok (f a) := rfl

theorem map_error (f : α → β) (e : ε) : (f <$> Except.error e : Except ε β) = .error e := rfl

end Results

section Reader

attribute [local simp] ok_bind error_bind map_ok map_error Except.map

variable {current : Option Statement} {t : Token} {ts : List Token}

theorem statementsFrom_cons (h : t.kind ≠ .eof) :
    statementsFrom current (t :: ts) =
      readToken current t >>= fun r => (r.1 ++ ·) <$> statementsFrom r.2 ts := by
  cases current with
  | none =>
    cases hk : t.kind with
    | eof => exact absurd hk h
    | newline => simp [statementsFrom, readToken, hk]
    | ident | int | comma | illegal => cases ht : t.statement <;> simp [statementsFrom, readToken, hk, ht]
  | some s =>
    cases hk : t.kind with
    | eof => exact absurd hk h
    | newline => simp [statementsFrom, readToken, hk]
    | comma => simp [statementsFrom, readToken, hk]
    | ident | int | illegal => cases ht : t.operand <;> simp [statementsFrom, readToken, hk, ht]

theorem statementsFrom_eof (hts : ∀ t ∈ ts, t.kind ≠ .eof) (text : Bytes) (line : Nat) :
    statementsFrom current (ts ++ [⟨.eof, text, line⟩]) = statementsFrom current ts := by
  induction ts generalizing current with
  | nil => cases current <;> rfl
  | cons t ts ih =>
    obtain ⟨ht, hts⟩ := List.forall_mem_cons.mp hts
    rw [List.cons_append, statementsFrom_cons ht, statementsFrom_cons ht]
    simp only [ih hts]

/-- A line feed ends the statement that is being read, and nothing of it is left for what follows. -/
theorem statementsFrom_newline (hts : ∀ t ∈ ts, t.kind ≠ .eof) (text : Bytes) (line : Nat) (rest : List Token) :
    statementsFrom current (ts ++ ⟨.newline, text, line⟩ :: rest) =
      followedBy (statementsFrom current ts) (statementsFrom none rest) := by
  induction ts generalizing current with
  | nil =>
    rw [List.nil_append, statementsFrom_cons (by simp)]
    cases current <;> cases hr : statementsFrom none rest <;> simp [readToken, statementsFrom, followedBy, hr]
  | cons t ts ih =>
    obtain ⟨ht, hts⟩ := List.forall_mem_cons.mp hts
    rw [List.cons_append, statementsFrom_cons ht, statementsFrom_cons ht]
    simp only [ih hts]
    cases readToken current t with
    | error e => rfl
    | ok r =>
      cases hfirst : statementsFrom r.2 ts <;> cases hrest : statementsFrom none rest <;>
        simp [followedBy, hfirst]

theorem readToken_later (n : Nat) :
    readToken (current.map (Statement.later n)) (t.later n) =
      match readToken current t with
      | .ok (finished, next) => .ok (finished.map (Statement.later n), next.map (Statement.later n))
      | .error e => .error (e.later n) := by
  cases current with
  | none => cases hk : t.kind <;> simp [readToken, Token.later, Token.statement, hk, Statement.later, SourceError.later]
  | some s =>
    cases hk : t.kind with
    | int =>
      cases hi : int? t.text <;>
        simp [readToken, Token.later, Token.operand, hk, hi, Statement.later, Statement.addOperand, SourceError.later]
    | eof | newline | ident | comma | illegal =>
      simp [readToken, Token.later, Token.operand, hk, Statement.later, Statement.addOperand, SourceError.later]

theorem statementsFrom_later (n : Nat) (hts : ∀ t ∈ ts, t.kind ≠ .eof) :
    statementsFrom (current.map (Statement.later n)) (ts.map (Token.later n)) =
      movedDown n (statementsFrom current ts) := by
  induction ts generalizing current with
  | nil => cases current <;> rfl
  | cons t ts ih =>
    obtain ⟨ht, hts⟩ := List.forall_mem_cons.mp hts
    rw [List.map_cons, statementsFrom_cons (t := t.later n) ht, statementsFrom_cons ht, readToken_later]
    cases readToken current t with
    | error e => rfl
    | ok r => cases hrest : statementsFrom r.2 ts <;> simp [ih hts, hrest, movedDown]

/-- How a token is taken in: the statement before it, the ones that it ends, and the one that is read on. -/
inductive Takes : Option Statement → Token → List Statement → Option Statement → Prop
  | ended {current : Option Statement} {t : Token} (kind : t.kind = .newline) : Takes current t current.toList none
  | begun {t : Token} (kind : t.kind = .ident) : Takes none t [] (some ⟨upper t.text, [], t.line⟩)
  | skipped {s : Statement} {t : Token} (kind : t.kind = .comma) : Takes (some s) t [] (some s)
  | added {s : Statement} {t : Token} {o : Operand} (operand : t.operand = .ok o) :
      Takes (some s) t [] (some (s.addOperand o))

theorem takes_of_readToken {finished : List Statement} {next : Option Statement}
    (h : readToken current t = .ok (finished, next)) : Takes current t finished next := by
  cases current with
  | none =>
    cases hk : t.kind with
    | newline =>
      obtain ⟨rfl, rfl⟩ : [] = finished ∧ none = next := by simpa [readToken, hk] using h
      exact .ended hk
    | ident =>
      obtain ⟨rfl, rfl⟩ : [] = finished ∧ some ⟨upper t.text, [], t.line⟩ = next := by
        simpa [readToken, Token.statement, hk] using h
      exact .begun hk
    | eof | int | comma | illegal => simp [readToken, Token.statement, hk] at h
  | some s =>
    cases hk : t.kind with
    | newline =>
      obtain ⟨rfl, rfl⟩ : [s] = finished ∧ none = next := by simpa [readToken, hk] using h
      exact .ended hk
    | comma =>
      obtain ⟨rfl, rfl⟩ : [] = finished ∧ some s = next := by simpa [readToken, hk] using h
      exact .skipped hk
    | eof | ident | int | illegal =>
      cases ho : t.operand with
      | error e => simp [readToken, hk, ho] at h
      | ok o =>
        obtain ⟨rfl, rfl⟩ : [] = finished ∧ some (s.addOperand o) = next := by simpa [readToken, hk, ho] using h
        exact .added ho

/-- A source that is read has each of its tokens taken in. -/
theorem statementsFrom_cons_ok {statements : List Statement} (ht : t.kind ≠ .eof)
    (h : statementsFrom current (t :: ts) = .ok statements) :
    ∃ finished next rest, Takes current t finished next ∧ statementsFrom next ts = .ok rest ∧
      statements = finished ++ rest := by
  rw [statementsFrom_cons ht] at h
  cases hr : readToken current t with
  | error e => simp [hr] at h
  | ok r =>
    cases hs : statementsFrom r.2 ts with
    | error e => simp [hr, hs] at h
    | ok rest =>
      have h : r.1 ++ rest = statements := by simpa [hr, hs] using h
      exact ⟨r.1, r.2, rest, takes_of_readToken hr, hs, h.symm⟩

/-- Within a line the reader never goes on to a second statement, and the one it reads keeps its word and its line. -/
theorem statementsFrom_some_line {s : Statement} {statements : List Statement} (hts : ∀ t ∈ ts, t.kind ≠ .newline)
    (h : statementsFrom (some s) ts = .ok statements) :
    ∃ s', statements = [s'] ∧ s'.word = s.word ∧ s'.line = s.line := by
  induction ts generalizing s statements with
  | nil =>
    cases h
    exact ⟨s, rfl, rfl, rfl⟩
  | cons t ts ih =>
    obtain ⟨hline, hts⟩ := List.forall_mem_cons.mp hts
    by_cases heof : t.kind = .eof
    · rw [statementsFrom, heof] at h
      cases h
      exact ⟨s, rfl, rfl, rfl⟩
    · obtain ⟨finished, next, rest, htakes, hrest, rfl⟩ := statementsFrom_cons_ok heof h
      cases htakes with
      | ended hk => exact absurd hk hline
      | skipped | added =>
        obtain ⟨s', hs, hsame⟩ := ih hts hrest
        exact ⟨s', hs, hsame⟩

theorem statementsFrom_none_line {statements : List Statement} {line : Nat}
    (hts : ∀ t ∈ ts, t.kind ≠ .eof ∧ t.kind ≠ .newline ∧ t.line = line)
    (h : statementsFrom none ts = .ok statements) : statements = [] ∨ ∃ s, statements = [s] ∧ s.line = line := by
  cases ts with
  | nil =>
    cases h
    exact .inl rfl
  | cons t ts =>
    obtain ⟨⟨heof, hnewline, hline⟩, hts⟩ := List.forall_mem_cons.mp hts
    obtain ⟨finished, next, rest, htakes, hrest, rfl⟩ := statementsFrom_cons_ok heof h
    cases htakes with
    | ended hk => exact absurd hk hnewline
    | begun hk =>
      obtain ⟨s, hs, -, hsline⟩ := statementsFrom_some_line (fun t ht => (hts t ht).2.1) hrest
      exact .inr ⟨s, hs, hsline.trans hline⟩

theorem readToken_ne_notOne (n : Nat) : readToken current t ≠ .error (.notOne n) := by
  cases current with
  | none => cases hk : t.kind <;> simp [readToken, Token.statement, hk]
  | some s =>
    cases hk : t.kind with
    | int => cases hi : int? t.text <;> simp [readToken, Token.operand, hk, hi]
    | eof | newline | ident | comma | illegal => simp [readToken, Token.operand, hk]

theorem statementsFrom_ne_notOne (hts : ∀ t ∈ ts, t.kind ≠ .eof) (n : Nat) :
    statementsFrom current ts ≠ .error (.notOne n) := by
  induction ts generalizing current with
  | nil => simp [statementsFrom]
  | cons t ts ih =>
    obtain ⟨ht, hts⟩ := List.forall_mem_cons.mp hts
    rw [statementsFrom_cons ht]
    cases hr : readToken current t with
    | error e =>
      rintro ⟨⟩
      exact readToken_ne_notOne n hr
    | ok r =>
      have hrest : statementsFrom r.2 ts ≠ .error (.notOne n) := ih hts
      cases hs : statementsFrom r.2 ts with
      | error e => simpa [hs] using hrest
      | ok statements => simp [hs]

end Reader

theorem Covers.parse_eq {text : Bytes} {ts : List Token} (h : Covers 1 text ts) :
    parse text = statementsFrom none ts := by
  rw [parse, tokens, h.ended, statementsFrom_eof h.inside]

/-- A line feed separates what is read before it from what is read after it. -/
theorem parse_append_newline (a b : Bytes) :
    parse (a ++ newline :: b) = followedBy (parse a) (movedDown (a.count newline + 1) (parse b)) := by
  obtain ⟨ts, ha⟩ := exists_covers 1 a
  obtain ⟨us, hb⟩ := exists_covers 1 b
  have hmoved : tokensFrom (1 + a.count newline + 1) b =
      us.map (Token.later (a.count newline + 1)) ++ [⟨.eof, [], 1 + b.count newline + (a.count newline + 1)⟩] := by
    rw [Nat.add_assoc, tokensFrom_add, hb.ended, List.map_append]
    rfl
  have hinside : ∀ t ∈ us.map (Token.later (a.count newline + 1)), t.kind ≠ .eof :=
    List.forall_mem_map.mpr hb.inside
  rw [ha.parse_eq, hb.parse_eq, ← statementsFrom_later _ hb.inside, parse, tokens, ha.continued,
    statementsFrom_newline ha.inside, hmoved, statementsFrom_eof hinside]
  rfl

section OneLine

variable {line : Bytes}

theorem parse_one_line {statements : List Statement} (h : newline ∉ line) (hp : parse line = .ok statements) :
    statements = [] ∨ ∃ s, statements = [s] ∧ s.line = 1 := by
  obtain ⟨ts, hts⟩ := exists_covers 1 line
  have hline : ∀ t ∈ tokensFrom 1 line, t.kind ≠ .newline ∧ t.line = 1 := tokensFrom_one_line h
  rw [hts.ended] at hline
  have hall : ∀ t ∈ ts, t.kind ≠ .eof ∧ t.kind ≠ .newline ∧ t.line = 1 := fun t ht =>
    ⟨hts.inside t ht, hline t (List.mem_append_left _ ht)⟩
  rw [hts.parse_eq] at hp
  exact statementsFrom_none_line hall hp

theorem parse_ne_notOne (source : Bytes) (n : Nat) : parse source ≠ .error (.notOne n) := by
  obtain ⟨ts, hts⟩ := exists_covers 1 source
  rw [hts.parse_eq]
  exact statementsFrom_ne_notOne hts.inside n

/-- A line by itself says what it says in a source. -/
theorem parseLine_eq (h : newline ∉ line) : Option.toList <$> parseLine line = parse line := by
  unfold parseLine
  cases hp : parse line with
  | error e => rfl
  | ok statements =>
    rcases parse_one_line h hp with rfl | ⟨s, rfl, -⟩
    · rfl
    · rfl

theorem line_of_parseLine {s : Statement} (h : newline ∉ line) (hp : parseLine line = .ok (some s)) : s.line = 1 := by
  have hparse := parseLine_eq h
  rw [hp] at hparse
  rcases parse_one_line h hparse.symm with hnone | ⟨s', hs', hline⟩
  · cases hnone
  · cases hs'
    exact hline

theorem parseLine_ne_notOne (h : newline ∉ line) (n : Nat) : parseLine line ≠ .error (.notOne n) := by
  intro hp
  have hparse := parseLine_eq h
  rw [hp] at hparse
  exact parse_ne_notOne line n hparse.symm

end OneLine

/-- The lines of a text, read one by one from a place on. -/
theorem movedDown_parse_intercalate {lines : List Bytes} (hne : lines ≠ []) (h : ∀ line ∈ lines, newline ∉ line)
    (above : Nat) :
    movedDown above (parse ([newline].intercalate lines)) =
      List.flatten <$> (lines.zipIdx above).mapM fun p => movedDown p.2 (Option.toList <$> parseLine p.1) := by
  induction lines generalizing above with
  | nil => exact absurd rfl hne
  | cons line lines ih =>
    obtain ⟨hline, hlines⟩ := List.forall_mem_cons.mp h
    cases lines with
    | nil =>
      rw [show [newline].intercalate [line] = line by simp [List.intercalate]]
      rw [List.zipIdx_cons, List.mapM_cons]
      simp only [parseLine_eq hline]
      cases movedDown above (parse line) with
      | error e => rfl
      | ok statements => exact congrArg Except.ok (List.append_nil statements).symm
    | cons next lines =>
      have hjoin : [newline].intercalate (line :: next :: lines) =
          line ++ newline :: [newline].intercalate (next :: lines) := by simp [List.intercalate]
      have hcount : line.count newline = 0 := List.count_eq_zero.mpr hline
      rw [hjoin, parse_append_newline, movedDown_followedBy, movedDown_movedDown, hcount, Nat.zero_add, Nat.add_comm 1,
        ih (by simp) hlines, List.zipIdx_cons (a := line), List.mapM_cons]
      simp only [parseLine_eq hline]
      cases movedDown above (parse line) with
      | error e => rfl
      | ok first =>
        cases ((next :: lines).zipIdx (above + 1)).mapM fun p =>
            movedDown p.2 (Option.toList <$> parseLine p.1) with
        | error e => rfl
        | ok rest => rfl

/-- Reading is local to lines. A text with a line feed in it is read as the part before and the part after, the latter
as many lines further down as there are line feeds before it; the first failure is the one that counts. So a source
gives what its lines give by themselves, one after the other and each at its place, and a single line never holds two
statements. -/
theorem parse_line_by_line :
    (∀ a b : Bytes, parse (a ++ newline :: b) =
      match parse a, parse b with
      | .error e, _ => .error e
      | .ok _, .error e => .error (e.later (a.count newline + 1))
      | .ok first, .ok rest => .ok (first ++ rest.map (Statement.later (a.count newline + 1)))) ∧
    (∀ source : Bytes, parse source = List.flatten <$> (splitOn newline source).zipIdx.mapM fun p =>
      movedDown p.2 (Option.toList <$> parseLine p.1)) ∧
    ∀ line : Bytes, newline ∉ line →
      (∀ n, parseLine line ≠ .error (.notOne n)) ∧ ∀ s, parseLine line = .ok (some s) → s.line = 1 := by
  refine ⟨?_, ?_, ?_⟩
  · intro a b
    rw [parse_append_newline]
    cases parse a <;> cases parse b <;> rfl
  · intro source
    have hne : splitOn newline source ≠ [] := by
      rw [splitOn_eq]
      exact List.splitOn_ne_nil _ _
    have hlines := movedDown_parse_intercalate hne (fun line h => not_mem_of_mem_splitOn h) 0
    have hjoin : [newline].intercalate (splitOn newline source) = source := by
      rw [splitOn_eq, List.intercalate_splitOn]
    rwa [hjoin, movedDown_zero] at hlines
  · exact fun line h => ⟨parseLine_ne_notOne h, fun s => line_of_parseLine h⟩

/-- A comment, a carriage return and a sign at the end of their lines, and a second line that fails. -/
theorem parse_line_by_line_failing :
    newline ∉ utf8 "set A, -1 ; \r" ∧
      (∃ s, parseLine (utf8 "set A, -1 ; \r") = .ok (some s) ∧ s.line = 1) ∧
      parse (utf8 "set A, -1 ; \r" ++ newline :: utf8 "\nPSH 1\npop +\n") = .error (.unexpected 4 (utf8 "+")) := by
  obtain ⟨happend, -, hline⟩ := parse_line_by_line
  have hfree : newline ∉ utf8 "set A, -1 ; \r" := by decide +kernel
  have hfirst : parse (utf8 "set A, -1 ; \r") = .ok [⟨utf8 "SET", [.reg (utf8 "A"), .imm (-1)], 1⟩] := by
    decide +kernel
  have hrest : parse (utf8 "\nPSH 1\npop +\n") = .error (.unexpected 3 (utf8 "+")) := by decide +kernel
  have hread : parseLine (utf8 "set A, -1 ; \r") = .ok (some ⟨utf8 "SET", [.reg (utf8 "A"), .imm (-1)], 1⟩) := by
    simp only [parseLine, hfirst]
  refine ⟨hfree, ⟨_, hread, (hline _ hfree).2 _ hread⟩, ?_⟩
  rw [happend, hfirst, hrest]
  decide +kernel

end StackMachine
