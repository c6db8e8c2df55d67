import StackMachine.Proofs.Glyphs

namespace StackMachine

theorem trimmed_eq_self {text : Bytes} (h : ∀ g ∈ glyphs text, g.isBlank = false) : trimmed text = text := by
  have hreverse : ∀ g ∈ (glyphs text).reverse, g.isBlank = false := fun g hg => h g (List.mem_reverse.mp hg)
  rw [trimmed, dropWhile_eq_of_none h, dropWhile_eq_of_none hreverse, List.reverse_reverse, ofGlyphs_glyphs]

section Texts

variable {w : Bytes}

theorem IsWord.trimmed_eq (h : IsWord w) : trimmed w = w := trimmed_eq_self (not_blank_word h.isWordByte)

theorem not_blank_number {c : UInt8} (h : (isDigitByte c || isSign c) = true) :
    c < 0x80 ∧ (loneGlyph c).isBlank = false := by
  have hnum : c.toNat < 128 := by
    rw [Bool.or_eq_true, isDigitByte_iff, isSign_iff] at h
    omega
  have hlt : c < 0x80 := UInt8.lt_iff_toNat_lt.mpr hnum
  have hcode : (loneGlyph c).code = c.toNat := by
    rw [loneGlyph, if_pos hlt]
    exact toNat_ofNat_char (.inl (by omega))
  refine ⟨hlt, ?_⟩
  rw [Bool.or_eq_true, isDigitByte_iff, isSign_iff] at h
  simp only [Glyph.isBlank, hcode, isBlankCode, Bool.or_eq_false_iff, Bool.and_eq_false_iff, decide_eq_false_iff_not,
    beq_eq_false_iff_ne]
  omega

theorem IsNumber.trimmed_eq (h : IsNumber w) : trimmed w = w := by
  match w, h with
  | c :: rest, ⟨hc, hrest⟩ =>
    obtain ⟨hlt, hblank⟩ := not_blank_number (startsNumber_first hc)
    apply trimmed_eq_self
    rw [glyphs_cons_ascii hlt]
    exact List.forall_mem_cons.mpr ⟨hblank, not_blank_word hrest⟩

/-- A letter is a digit of large bases only. -/
theorem ten_le_of_digitValue? {c : UInt8} (h : isDigitByte c = false) : ∀ d ∈ digitValue? c, 10 ≤ d := by
  intro d hd
  rw [digitValue?, if_neg (by simp [h])] at hd
  split at hd
  next hlower =>
    have hge : 97 ≤ (foldCase c).toNat := by
      simp only [isLowerByte, Bool.and_eq_true, decide_eq_true_eq, UInt8.le_iff_toNat_le, toNat_byte] at hlower
      exact hlower.1
    cases hd
    omega
  next => cases hd

/-- An underscore in front is skipped like any other, but it follows no digit. -/
theorem readUnsigned_underscore (rest : Bytes) : ∀ n, readUnsigned (byte '_' :: rest) ≠ .ok n := by
  intro n hn
  have hbase : literalBase (byte '_' :: rest) = (10, byte '_' :: rest) := by
    match rest with
    | [] | [_] | _ :: _ :: _ => rfl
  have hallowed : underscoresAllowed (byte '_' :: rest) = false := by
    match rest with
    | [] | _ :: _ => rfl
  rw [readUnsigned, if_neg (by simp), hbase] at hn
  dsimp only at hn
  split at hn
  next => cases hn
  next => simp [hallowed] at hn

theorem readUnsigned_letter {c : UInt8} (hdigit : isDigitByte c = false) (hunderscore : c ≠ byte '_') (rest : Bytes) :
    readUnsigned (c :: rest) = .error .malformed := by
  have hzero : c ≠ byte '0' := by
    rintro rfl
    cases hdigit
  have hbase : literalBase (c :: rest) = (10, c :: rest) := by
    match rest with
    | [] | [_] | _ :: _ :: _ => simp [literalBase, hzero]
  have hdigits : readDigits 10 0 (c :: rest) = .error .malformed := by
    rw [readDigits, if_neg hunderscore]
    cases hvalue : digitValue? c with
    | none => rfl
    | some d =>
      have hlarge : 10 ≤ d := ten_le_of_digitValue? hdigit d hvalue
      simp only [if_pos hlarge]
  rw [readUnsigned, if_neg (by simp), hbase]
  simp only [hdigits]

theorem IsWord.int?_eq_none (h : IsWord w) : int? w = none := by
  match w, h with
  | c :: rest, ⟨hc, _⟩ =>
    obtain ⟨-, -, -, -, hdigit, hsign, -⟩ := startsWord_only c hc
    have hsplit : splitSign (c :: rest) = (false, c :: rest) := by
      simp only [isSign, Bool.or_eq_false_iff, beq_eq_false_iff_ne] at hsign
      simp only [splitSign, if_neg hsign.1, if_neg hsign.2]
    have hread : ∀ n, readUnsigned (c :: rest) ≠ .ok n := by
      by_cases hunderscore : c = byte '_'
      · rw [hunderscore]
        exact readUnsigned_underscore rest
      · intro n hn
        rw [readUnsigned_letter hdigit hunderscore] at hn
        cases hn
    rw [int?, readInt, hsplit]
    dsimp only
    cases hunsigned : readUnsigned (c :: rest) with
    | error fault => rfl
    | ok n => exact absurd hunsigned (hread n)

theorem IsWord.ofToken_eq (h : IsWord w) : Operand.ofToken w = .reg w := by
  rw [Operand.ofToken, h.trimmed_eq, h.int?_eq_none]

theorem IsNumber.ofToken_eq (h : IsNumber w) : Operand.ofToken w = (int? w).elim (.reg w) .imm := by
  rw [Operand.ofToken, h.trimmed_eq]
  cases int? w with
  | none | some v => rfl

end Texts

theorem Lexes.exists_readFrom {line : Nat} {text : Bytes} {ts : List Token} (h : Lexes line text ts) :
    ∀ t ∈ ts, t.kind ≠ .eof → ∃ bytes after, t.ReadFrom bytes after := by
  induction h with
  | ended => simp
  | next _ read _ _ ih => exact List.forall_mem_cons.mpr ⟨fun _ => ⟨_, _, read⟩, ih⟩

/-- What the parser makes of a word or a number of a source, said of `Operand.ofToken`. -/
theorem Token.operand_eq {source : Bytes} {t : Token} (ht : t ∈ tokens source) (hk : t.kind = .ident ∨ t.kind = .int) :
    (t.kind = .ident ∧ t.operand = .ok (.reg t.text) ∧ Operand.ofToken t.text = .reg t.text) ∨
    (t.kind = .int ∧ ∃ v, t.operand = .ok (.imm v) ∧ Operand.ofToken t.text = .imm v) ∨
    (t.kind = .int ∧ t.operand = .error (.badInteger t.line t.text) ∧ Operand.ofToken t.text = .reg t.text) := by
  have hread : ∃ bytes after, t.ReadFrom bytes after := by
    refine (lexes_tokensFrom 1 source).exists_readFrom t ht ?_
    rcases hk with hk | hk
    · simp [hk]
    · simp [hk]
  obtain ⟨bytes, after, hread⟩ := hread
  cases hread with
  | newline | comma | illegal => simp at hk
  | ident word => exact .inl ⟨rfl, rfl, word.ofToken_eq⟩
  | int number =>
    right
    rw [number.ofToken_eq]
    cases hint : int? bytes with
    | some v => exact .inl ⟨rfl, v, by simp only [Token.operand, hint], rfl⟩
    | none => exact .inr ⟨rfl, by simp only [Token.operand, hint], rfl⟩

/-- The two readers of operands agree on every word and number of a source. What the parser accepts is what
`Operand.ofToken` gives, and it refuses exactly the numbers that `Operand.ofToken` takes for a register. In the midst of a
statement the parser could read its operands with `Operand.ofToken`, had it not to tell these. -/
theorem operand_readers_agree {source : Bytes} {t : Token} (ht : t ∈ tokens source)
    (hk : t.kind = .ident ∨ t.kind = .int) :
    (∀ o, t.operand = .ok o → Operand.ofToken t.text = o) ∧
    ((∃ error, t.operand = .error error) ↔ t.kind = .int ∧ ∃ name, Operand.ofToken t.text = .reg name) ∧
    (∀ name, Operand.ofToken t.text = .reg name → name = t.text) ∧
    ∀ (s : Statement) (rest : List Token), statementsFrom (some s) (t :: rest) =
      if t.kind = .int ∧ Operand.ofToken t.text = .reg t.text then .error (.badInteger t.line t.text)
      else statementsFrom (some (s.addOperand (Operand.ofToken t.text))) rest := by
  rcases Token.operand_eq ht hk with ⟨hkind, hparser, hother⟩ | ⟨hkind, v, hparser, hother⟩ | ⟨hkind, hparser, hother⟩
  · refine ⟨fun o ho => ?_, by simp [hkind, hparser], by simp [hother], fun s rest => ?_⟩
    · rw [hother]
      exact Except.ok.inj (hparser.symm.trans ho)
    · rw [if_neg (by simp [hkind])]
      simp only [statementsFrom, hkind, hparser, hother]
      rfl
  · refine ⟨fun o ho => ?_, by simp [hparser, hother], by simp [hother], fun s rest => ?_⟩
    · rw [hother]
      exact Except.ok.inj (hparser.symm.trans ho)
    · rw [if_neg (by simp [hother])]
      simp only [statementsFrom, hkind, hparser, hother]
      rfl
  · refine ⟨by simp [hparser], by simp [hkind, hparser, hother], by simp [hother], fun s rest => ?_⟩
    rw [if_pos ⟨hkind, hother⟩]
    simp only [statementsFrom, hkind, hparser]
    rfl

/-- A name with a character of two bytes before an underscore and a digit, and a number that is no octal one. -/
theorem operand_readers_agree_letters :
    tokens (utf8 "set µ_1 09") =
      [⟨.ident, utf8 "set", 1⟩, ⟨.ident, utf8 "µ_1", 1⟩, ⟨.int, utf8 "09", 1⟩, ⟨.eof, [], 1⟩] ∧
    Operand.ofToken (utf8 "µ_1") = .reg (utf8 "µ_1") ∧ Operand.ofToken (utf8 "09") = .reg (utf8 "09") ∧
    ∃ error, (⟨.int, utf8 "09", 1⟩ : Token).operand = .error error := by
  have htokens : tokens (utf8 "set µ_1 09") =
      [⟨.ident, utf8 "set", 1⟩, ⟨.ident, utf8 "µ_1", 1⟩, ⟨.int, utf8 "09", 1⟩, ⟨.eof, [], 1⟩] := by decide +kernel
  have hname : (⟨.ident, utf8 "µ_1", 1⟩ : Token) ∈ tokens (utf8 "set µ_1 09") := by simp [htokens]
  have hnumber : (⟨.int, utf8 "09", 1⟩ : Token) ∈ tokens (utf8 "set µ_1 09") := by simp [htokens]
  have hoctal : Operand.ofToken (utf8 "09") = .reg (utf8 "09") := by decide +kernel
  obtain ⟨haccepted, -⟩ := operand_readers_agree hname (.inl rfl)
  obtain ⟨-, hrefused, -⟩ := operand_readers_agree hnumber (.inr rfl)
  exact ⟨htokens, haccepted _ rfl, hoctal, hrefused.mpr ⟨rfl, _, hoctal⟩⟩

end StackMachine
