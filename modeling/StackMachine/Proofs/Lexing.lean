import Mathlib.Data.List.Basic
import StackMachine.Token

namespace StackMachine

/-- A property of all bytes, tried on each of them. -/
theorem forall_byte {p : UInt8 → Prop} (h : ∀ n < 256, p (UInt8.ofNat n)) (c : UInt8) : p c := by
  have hc := h c.toNat c.toNat_lt
  rwa [UInt8.ofNat_toNat] at hc

/-- Where a text begins, a run of word bytes that stands before it has ended. -/
def Closes (text : Bytes) : Prop := text.head?.any isWordByte = false

theorem takeWhile_word {w rest : Bytes} (hw : ∀ c ∈ w, isWordByte c = true) (hrest : Closes rest) :
    (w ++ rest).takeWhile isWordByte = w := by
  rw [List.takeWhile_append_of_pos hw]
  cases rest with
  | nil => simp
  | cons c rest =>
    have hc : isWordByte c = false := hrest
    simp [hc]

theorem dropWhile_word {w rest : Bytes} (hw : ∀ c ∈ w, isWordByte c = true) (hrest : Closes rest) :
    (w ++ rest).dropWhile isWordByte = rest := by
  rw [List.dropWhile_append_of_pos hw]
  cases rest with
  | nil => rfl
  | cons c rest =>
    have hc : isWordByte c = false := hrest
    simp [hc]

section ByteClasses

-- The classes of bytes as ranges of numbers, which `omega` tells apart.

variable (c : UInt8)

theorem toNat_byte (mark : Char) : (byte mark).toNat = mark.toNat % 256 := UInt32.toNat_toUInt8 mark.val

theorem eq_byte_iff (mark : Char) : c = byte mark ↔ c.toNat = mark.toNat % 256 := by
  rw [← UInt8.toNat_inj, toNat_byte]

theorem eq_comma_iff : c = byte ',' ↔ c.toNat = 44 := eq_byte_iff c ','

theorem eq_newline_iff : c = newline ↔ c.toNat = 10 := eq_byte_iff c '\n'

theorem isGapByte_iff : isGapByte c = true ↔ c.toNat = 32 ∨ c.toNat = 9 ∨ c.toNat = 13 := by
  simp [isGapByte, eq_byte_iff, or_assoc]

theorem startsComment_iff : startsComment c = true ↔ c.toNat = 59 ∨ c.toNat = 35 := by
  simp [startsComment, eq_byte_iff]

theorem isSign_iff : isSign c = true ↔ c.toNat = 45 ∨ c.toNat = 43 := by
  simp [isSign, eq_byte_iff]

theorem isDigitByte_iff : isDigitByte c = true ↔ 48 ≤ c.toNat ∧ c.toNat ≤ 57 := by
  simp [isDigitByte, UInt8.le_iff_toNat_le, toNat_byte]

theorem startsWord_iff : startsWord c = true ↔
    65 ≤ c.toNat ∧ c.toNat ≤ 90 ∨ 97 ≤ c.toNat ∧ c.toNat ≤ 122 ∨ c.toNat = 95 ∨ c.toNat = 170 ∨ c.toNat = 181 ∨
      c.toNat = 186 ∨ 192 ≤ c.toNat ∧ c.toNat ≠ 215 ∧ c.toNat ≠ 247 := by
  simp only [startsWord, isLatinLetter, isUpperByte, isLowerByte, Bool.or_eq_true, Bool.and_eq_true, decide_eq_true_eq,
    beq_iff_eq, UInt8.le_iff_toNat_le, ← UInt8.toNat_inj, toNat_byte, Char.reduceToNat, UInt8.reduceToNat]
  omega

theorem isWordByte_iff : isWordByte c = true ↔ startsWord c = true ∨ isDigitByte c = true := by
  rw [isWordByte, startsWord, Bool.or_right_comm, Bool.or_eq_true]

end ByteClasses

/-- A byte that begins a word begins nothing else. -/
theorem startsWord_only (c : UInt8) (h : startsWord c = true) :
    isGapByte c = false ∧ c ≠ newline ∧ startsComment c = false ∧ c ≠ byte ',' ∧ isDigitByte c = false ∧
      isSign c = false ∧ isWordByte c = true := by
  have hword := (isWordByte_iff c).mpr (.inl h)
  rw [startsWord_iff] at h
  simp only [hword, and_true, ne_eq, eq_comma_iff, eq_newline_iff, ← Bool.not_eq_true, isGapByte_iff, startsComment_iff,
    isDigitByte_iff, isSign_iff]
  omega

/-- A digit or a sign is no blank, comment or comma. -/
theorem startsNumber_only (c : UInt8) (h : (isDigitByte c || isSign c) = true) :
    isGapByte c = false ∧ c ≠ newline ∧ startsComment c = false ∧ c ≠ byte ',' := by
  rw [Bool.or_eq_true, isDigitByte_iff, isSign_iff] at h
  simp only [ne_eq, eq_comma_iff, eq_newline_iff, ← Bool.not_eq_true, isGapByte_iff, startsComment_iff]
  omega

theorem isWordByte_of_digit (c : UInt8) (h : isDigitByte c = true) : isWordByte c = true :=
  (isWordByte_iff c).mpr (.inr h)

theorem isWordByte_newline : isWordByte newline = false := rfl

/-- A text that the lexer takes for one word. -/
def IsWord : Bytes → Prop
  | [] => False
  | c :: rest => startsWord c = true ∧ ∀ b ∈ rest, isWordByte b = true

/-- A text that the lexer takes for one number. -/
def IsNumber : Bytes → Prop
  | [] => False
  | c :: rest => startsNumber c rest = true ∧ ∀ b ∈ rest, isWordByte b = true

theorem isWord_iff (w : Bytes) : IsWord w ↔ (w.head?.any startsWord && w.tail.all isWordByte) = true := by
  cases w with
  | nil => simp [IsWord]
  | cons c rest => simp [IsWord]

theorem isNumber_iff (w : Bytes) :
    IsNumber w ↔ (w.head?.any (startsNumber · w.tail) && w.tail.all isWordByte) = true := by
  cases w with
  | nil => simp [IsNumber]
  | cons c rest => simp [IsNumber]

instance (w : Bytes) : Decidable (IsWord w) := decidable_of_iff' _ (isWord_iff w)

instance (w : Bytes) : Decidable (IsNumber w) := decidable_of_iff' _ (isNumber_iff w)

theorem IsWord.isWordByte {w : Bytes} (h : IsWord w) : ∀ c ∈ w, StackMachine.isWordByte c = true := by
  match w, h with
  | c :: rest, ⟨hc, hrest⟩ =>
    obtain ⟨-, -, -, -, -, -, hword⟩ := startsWord_only c hc
    exact List.forall_mem_cons.mpr ⟨hword, hrest⟩

theorem IsWord.newline_not_mem {w : Bytes} (h : IsWord w) : newline ∉ w := fun hmem => by
  simpa [isWordByte_newline] using h.isWordByte newline hmem

/-- A number begins with a digit or a sign. -/
theorem startsNumber_first {c : UInt8} {rest : Bytes} (h : startsNumber c rest = true) :
    (isDigitByte c || isSign c) = true := by
  rw [startsNumber, Bool.or_eq_true, Bool.and_eq_true] at h
  rcases h with hdigit | ⟨hsign, -⟩
  · rw [hdigit, Bool.true_or]
  · rw [hsign, Bool.or_true]

theorem IsNumber.newline_not_mem {w : Bytes} (h : IsNumber w) : newline ∉ w := by
  match w, h with
  | c :: rest, ⟨hc, hrest⟩ =>
    obtain ⟨-, hne, -⟩ := startsNumber_only c (startsNumber_first hc)
    refine List.not_mem_cons_of_ne_of_not_mem hne.symm fun hmem => ?_
    simpa [isWordByte_newline] using hrest newline hmem

theorem startsNumber_append {c : UInt8} {xs : Bytes} (h : startsNumber c xs = true) (ys : Bytes) :
    startsNumber c (xs ++ ys) = true := by
  cases xs with
  | nil =>
    have hc : isDigitByte c = true := by simpa [startsNumber] using h
    simp [startsNumber, hc]
  | cons x xs => exact h

theorem startsNumber_append_newline (c : UInt8) (xs ys : Bytes) :
    startsNumber c (xs ++ newline :: ys) = startsNumber c xs := by
  cases xs with
  | nil =>
    have hn : isDigitByte newline = false := rfl
    simp [startsNumber, hn]
  | cons x xs => rfl

theorem tokensFrom_gap {c : UInt8} (hc : isGapByte c = true) (line : Nat) (rest : Bytes) :
    tokensFrom line (c :: rest) = tokensFrom line rest := by
  rw [tokensFrom, if_pos hc]

theorem tokensFrom_newline (line : Nat) (rest : Bytes) :
    tokensFrom line (newline :: rest) = ⟨.newline, [newline], line⟩ :: tokensFrom (line + 1) rest := by
  rw [tokensFrom, if_neg (by decide), if_pos rfl]

theorem tokensFrom_word {w rest : Bytes} (hw : IsWord w) (hrest : Closes rest) (line : Nat) :
    tokensFrom line (w ++ rest) = ⟨.ident, w, line⟩ :: tokensFrom line rest := by
  match w with
  | [] => exact hw.elim
  | c :: tail =>
    obtain ⟨hc, htail⟩ := hw
    obtain ⟨hgap, hline, hcomment, hcomma, hdigit, hsign, -⟩ := startsWord_only c hc
    rw [List.cons_append, tokensFrom]
    simp [hgap, hline, hcomment, hcomma, startsNumber, hdigit, hsign, hc, takeWhile_word htail hrest,
      dropWhile_word htail hrest]

theorem tokensFrom_number {w rest : Bytes} (hw : IsNumber w) (hrest : Closes rest) (line : Nat) :
    tokensFrom line (w ++ rest) = ⟨.int, w, line⟩ :: tokensFrom line rest := by
  match w with
  | [] => exact hw.elim
  | c :: tail =>
    obtain ⟨hc, htail⟩ := hw
    obtain ⟨hgap, hline, hcomment, hcomma⟩ := startsNumber_only c (startsNumber_first hc)
    rw [List.cons_append, tokensFrom]
    simp [hgap, hline, hcomment, hcomma, startsNumber_append hc, takeWhile_word htail hrest, dropWhile_word htail hrest]

/-- What is passed over in one go before some text: a blank, or a comment up to the end of its line. -/
inductive Passed : Bytes → Bytes → Prop
  | blank {c : UInt8} {after : Bytes} (gap : isGapByte c = true) : Passed [c] after
  | comment {c : UInt8} {body after : Bytes} (start : startsComment c = true) (inside : newline ∉ body)
      (ends : after = [] ∨ after.head? = some newline) : Passed (c :: body) after

/-- A gap between tokens, and the text that follows it. -/
inductive Skipped : Bytes → Bytes → Prop
  | nil {after : Bytes} : Skipped [] after
  | cons {first gap after : Bytes} (passed : Passed first (gap ++ after)) (rest : Skipped gap after) :
      Skipped (first ++ gap) after

/-- A byte that is part of nothing. -/
def isStray (c : UInt8) : Bool :=
  !isGapByte c && c != newline && !startsComment c && c != byte ',' && !isWordByte c

/-- A token, the bytes that it was read from, and the text that follows them. A word or a number ends where it could not
be read on, and a sign is stray only where no digit follows. -/
inductive Token.ReadFrom : Token → Bytes → Bytes → Prop
  | newline {line : Nat} {after : Bytes} :
      ReadFrom ⟨.newline, [StackMachine.newline], line⟩ [StackMachine.newline] after
  | comma {line : Nat} {after : Bytes} : ReadFrom ⟨.comma, [byte ','], line⟩ [byte ','] after
  | ident {w after : Bytes} {line : Nat} (word : IsWord w) (closes : Closes after) : ReadFrom ⟨.ident, w, line⟩ w after
  | int {w after : Bytes} {line : Nat} (number : IsNumber w) (closes : Closes after) : ReadFrom ⟨.int, w, line⟩ w after
  | illegal {c : UInt8} {after : Bytes} {line : Nat} (stray : isStray c = true)
      (unsigned : startsNumber c after = false) : ReadFrom ⟨.illegal, latinText c, line⟩ [c] after

/-- How the tokens of a text from a line on come about: a gap and a token, again and again, and a last gap. -/
inductive Lexes : Nat → Bytes → List Token → Prop
  | ended {line : Nat} {gap : Bytes} (skipped : Skipped gap []) : Lexes line gap [⟨.eof, [], line⟩]
  | next {line : Nat} {gap bytes after : Bytes} {t : Token} {ts : List Token} (skipped : Skipped gap (bytes ++ after))
      (read : t.ReadFrom bytes after) (place : t.line = line) (rest : Lexes (line + bytes.count newline) after ts) :
      Lexes line (gap ++ (bytes ++ after)) (t :: ts)

section Gaps

variable {gap after : Bytes}

theorem startsComment_only (c : UInt8) (h : startsComment c = true) : isGapByte c = false ∧ c ≠ newline := by
  rw [startsComment_iff] at h
  rw [← Bool.not_eq_true, isGapByte_iff, ne_eq, eq_newline_iff]
  omega

theorem Passed.newline_not_mem {first : Bytes} (h : Passed first after) : newline ∉ first := by
  cases h with
  | blank hgap =>
    intro hmem
    rw [← List.mem_singleton.mp hmem] at hgap
    cases hgap
  | comment hstart hinside =>
    exact List.not_mem_cons_of_ne_of_not_mem (startsComment_only _ hstart).2.symm hinside

theorem Skipped.newline_not_mem (h : Skipped gap after) : newline ∉ gap := by
  induction h with
  | nil => exact List.not_mem_nil
  | cons hpassed hrest ih => exact List.not_mem_append hpassed.newline_not_mem ih

theorem Skipped.count_newline (h : Skipped gap after) : gap.count newline = 0 :=
  List.count_eq_zero.mpr h.newline_not_mem

/-- A gap stays one when the text after it goes on in a new line. -/
theorem Skipped.continued (h : Skipped gap after) (more : Bytes) : Skipped gap (after ++ newline :: more) := by
  induction h with
  | nil => exact .nil
  | @cons first gap after hpassed hrest ih =>
    refine .cons ?_ ih
    rw [← List.append_assoc]
    cases hpassed with
    | blank hgap => exact .blank hgap
    | comment hstart hinside hends =>
      refine .comment hstart hinside (.inr ?_)
      rcases hends with hnil | hhead
      · rw [hnil]
        rfl
      · rw [List.head?_append, hhead]
        rfl

theorem tokensFrom_passed {first : Bytes} (h : Passed first after) (line : Nat) :
    tokensFrom line (first ++ after) = tokensFrom line after := by
  cases h with
  | blank hgap => exact tokensFrom_gap hgap line after
  | @comment c body _ hstart hinside hends =>
    obtain ⟨hgap, hline⟩ := startsComment_only c hstart
    have hbody : ∀ b ∈ body, (b != newline) = true := fun b hb => by
      simpa using fun heq : b = newline => hinside (heq ▸ hb)
    have hdrop : (body ++ after).dropWhile (· != newline) = after := by
      rw [List.dropWhile_append_of_pos hbody]
      rcases hends with rfl | hhead
      · rfl
      · obtain ⟨more, rfl⟩ := List.head?_eq_some_iff.mp hhead
        exact List.dropWhile_cons_of_neg (by simp)
    rw [List.cons_append, tokensFrom, if_neg (by simp [hgap]), if_neg hline, if_pos hstart, hdrop]

theorem tokensFrom_skipped (h : Skipped gap after) (line : Nat) :
    tokensFrom line (gap ++ after) = tokensFrom line after := by
  induction h with
  | nil => rfl
  | cons hpassed hrest ih => rw [List.append_assoc, tokensFrom_passed hpassed, ih]

end Gaps

namespace Token

variable {t : Token} {bytes after : Bytes}

theorem ReadFrom.kind_ne_eof (h : t.ReadFrom bytes after) : t.kind ≠ .eof := by
  cases h <;> simp

theorem ReadFrom.length_pos (h : t.ReadFrom bytes after) : 0 < bytes.length := by
  cases h with
  | newline | comma | illegal => exact Nat.one_pos
  | ident hw =>
    refine List.length_pos_iff.mpr ?_
    rintro rfl
    exact hw
  | int hw =>
    refine List.length_pos_iff.mpr ?_
    rintro rfl
    exact hw

theorem ReadFrom.count_newline (h : t.ReadFrom bytes after) :
    bytes.count StackMachine.newline = if t.kind = .newline then 1 else 0 := by
  cases h with
  | newline | comma => rfl
  | ident hw => exact List.count_eq_zero.mpr hw.newline_not_mem
  | int hw => exact List.count_eq_zero.mpr hw.newline_not_mem
  | @illegal c _ _ hstray =>
    refine List.count_eq_zero.mpr fun hmem => ?_
    rw [← List.mem_singleton.mp hmem] at hstray
    cases hstray

theorem ReadFrom.continued (h : t.ReadFrom bytes after) (more : Bytes) :
    t.ReadFrom bytes (after ++ StackMachine.newline :: more) := by
  have hcloses : Closes after → Closes (after ++ StackMachine.newline :: more) := by
    intro hafter
    cases after with
    | nil => exact isWordByte_newline
    | cons c after => exact hafter
  cases h with
  | newline => exact .newline
  | comma => exact .comma
  | ident hw hafter => exact .ident hw (hcloses hafter)
  | int hw hafter => exact .int hw (hcloses hafter)
  | illegal hstray hunsigned => exact .illegal hstray (by rw [startsNumber_append_newline, hunsigned])

/-- The lexer takes the token from the beginning of the text. -/
theorem ReadFrom.tokensFrom_eq (h : t.ReadFrom bytes after) :
    tokensFrom t.line (bytes ++ after) = t :: tokensFrom (t.line + bytes.count StackMachine.newline) after := by
  have hcount := h.count_newline
  cases h with
  | newline => exact tokensFrom_newline _ after
  | comma =>
    rw [List.singleton_append, tokensFrom, if_neg (by decide), if_neg (by decide), if_neg (by decide), if_pos rfl]
    rfl
  | ident hw hafter =>
    rw [hcount]
    exact tokensFrom_word hw hafter _
  | int hw hafter =>
    rw [hcount]
    exact tokensFrom_number hw hafter _
  | @illegal c _ line hstray hunsigned =>
    simp only [isStray, Bool.and_eq_true, Bool.not_eq_true', bne_iff_ne] at hstray
    obtain ⟨⟨⟨⟨hgap, hline⟩, hcomment⟩, hcomma⟩, hword⟩ := hstray
    have hstart : startsWord c = false := by
      rw [Bool.eq_false_iff]
      intro hc
      obtain ⟨-, -, -, -, -, -, hbyte⟩ := startsWord_only c hc
      rw [hbyte] at hword
      cases hword
    rw [hcount, List.singleton_append, tokensFrom]
    simp [hgap, hline, hcomment, hcomma, hunsigned, hstart]

end Token

theorem closes_dropWhile (text : Bytes) : Closes (text.dropWhile isWordByte) := by
  have hhead := List.head?_dropWhile_not isWordByte text
  cases hrest : text.dropWhile isWordByte with
  | nil => trivial
  | cons c rest =>
    rw [hrest] at hhead
    exact hhead

theorem startsNumber_takeWhile (c : UInt8) (rest : Bytes) :
    startsNumber c (rest.takeWhile isWordByte) = startsNumber c rest := by
  cases rest with
  | nil => rfl
  | cons b more =>
    cases hb : isWordByte b with
    | true => simp [startsNumber, hb]
    | false =>
      have hdigit : isDigitByte b = false := by
        rw [Bool.eq_false_iff]
        intro hd
        rw [isWordByte_of_digit b hd] at hb
        cases hb
      simp [startsNumber, hb, hdigit]

namespace Lexes

variable {line : Nat} {ts : List Token}

theorem passed {first text : Bytes} (h : Lexes line text ts) (hfirst : Passed first text) :
    Lexes line (first ++ text) ts := by
  cases h with
  | ended skipped => exact .ended (.cons (by rwa [List.append_nil]) skipped)
  | next skipped read place rest =>
    rw [← List.append_assoc]
    exact .next (.cons hfirst skipped) read place rest

theorem read {bytes after : Bytes} {t : Token} (h : Lexes line after ts) (read : t.ReadFrom bytes after)
    (place : t.line = line) (kind : t.kind ≠ .newline) : Lexes line (bytes ++ after) (t :: ts) := by
  have hcount : bytes.count newline = 0 := by rw [read.count_newline, if_neg kind]
  have hnil : Skipped [] (bytes ++ after) := .nil
  exact .next hnil read place (by rwa [hcount])

end Lexes

theorem lexes_tokensFrom (line : Nat) (text : Bytes) : Lexes line text (tokensFrom line text) := by
  have htake : ∀ rest : Bytes, ∀ b ∈ rest.takeWhile isWordByte, isWordByte b = true := fun rest b hb =>
    List.all_eq_true.mp List.all_takeWhile b hb
  fun_induction tokensFrom line text with
  | case1 line => exact .ended .nil
  | case2 line c rest hgap ih =>
    have hpassed : Passed [c] rest := .blank hgap
    exact ih.passed hpassed
  | case3 line rest hgap ih =>
    have hread : Token.ReadFrom ⟨.newline, [newline], line⟩ [newline] rest := .newline
    have hnil : Skipped [] ([newline] ++ rest) := .nil
    exact .next hnil hread rfl ih
  | case4 line c rest hgap hline hcomment ih =>
    have hends : rest.dropWhile (· != newline) = [] ∨ (rest.dropWhile (· != newline)).head? = some newline := by
      have hstop := List.head?_dropWhile_not (· != newline) rest
      cases hrest : rest.dropWhile (· != newline) with
      | nil => exact .inl rfl
      | cons b more => exact .inr (by simpa [hrest] using hstop)
    have hinside : newline ∉ rest.takeWhile (· != newline) := fun hmem => by
      simpa using List.all_eq_true.mp List.all_takeWhile newline hmem
    have hwhole := ih.passed (.comment hcomment hinside hends)
    rwa [List.cons_append, List.takeWhile_append_dropWhile] at hwhole
  | case5 line rest hgap hline hcomment ih =>
    have hread : Token.ReadFrom ⟨.comma, [byte ','], line⟩ [byte ','] rest := .comma
    exact ih.read hread rfl (by simp)
  | case6 line c rest hgap hline hcomment hcomma hnumber ih =>
    have hw : IsNumber (c :: rest.takeWhile isWordByte) := ⟨by rwa [startsNumber_takeWhile], htake rest⟩
    have hwhole := ih.read (t := ⟨.int, c :: rest.takeWhile isWordByte, line⟩) (.int hw (closes_dropWhile rest)) rfl
      (by simp)
    rwa [List.cons_append, List.takeWhile_append_dropWhile] at hwhole
  | case7 line c rest hgap hline hcomment hcomma hnumber hword ih =>
    have hw : IsWord (c :: rest.takeWhile isWordByte) := ⟨hword, htake rest⟩
    have hwhole := ih.read (t := ⟨.ident, c :: rest.takeWhile isWordByte, line⟩) (.ident hw (closes_dropWhile rest)) rfl
      (by simp)
    rwa [List.cons_append, List.takeWhile_append_dropWhile] at hwhole
  | case8 line c rest hgap hline hcomment hcomma hnumber hword ih =>
    have hstray : isStray c = true := by
      simp only [startsNumber, Bool.or_eq_true, not_or] at hnumber
      simp only [startsWord, Bool.or_eq_true, not_or] at hword
      simp [isStray, isWordByte, hgap, hline, hcomment, hcomma, hnumber.1, hword.1, hword.2]
    have hread : Token.ReadFrom ⟨.illegal, latinText c, line⟩ [c] rest :=
      .illegal hstray (Bool.eq_false_iff.mpr hnumber)
    exact ih.read hread rfl (by simp)

/-- The tokens of a text before its end. Before a line feed that follows the text they are the same, and after it stand
those of what comes next, as many lines further down as there are line feeds before. -/
structure Covers (line : Nat) (text : Bytes) (ts : List Token) : Prop where
  inside : ∀ t ∈ ts, t.kind ≠ .eof
  ended : tokensFrom line text = ts ++ [⟨.eof, [], line + text.count newline⟩]
  continued : ∀ rest, tokensFrom line (text ++ newline :: rest) =
    ts ++ ⟨.newline, [newline], line + text.count newline⟩ :: tokensFrom (line + text.count newline + 1) rest

theorem Lexes.exists_covers {line : Nat} {text : Bytes} {ts : List Token} (h : Lexes line text ts) :
    ∃ us, Covers line text us := by
  induction h with
  | @ended line gap hskipped =>
    have hcount := hskipped.count_newline
    refine ⟨[], by simp, ?_, fun more => ?_⟩
    · have hgap := tokensFrom_skipped hskipped line
      rw [List.append_nil] at hgap
      rw [hgap, hcount, tokensFrom]
      rfl
    · have hgap := tokensFrom_skipped (hskipped.continued more) line
      rw [List.nil_append] at hgap
      rw [hgap, hcount]
      exact tokensFrom_newline line more
  | @next line gap bytes after t ts hskipped hread hplace hrest ih =>
    obtain ⟨us, hinside, hended, hcontinued⟩ := ih
    subst hplace
    have hcount : t.line + (gap ++ (bytes ++ after)).count newline =
        t.line + bytes.count newline + after.count newline := by
      rw [List.count_append, List.count_append, hskipped.count_newline]
      omega
    refine ⟨t :: us, List.forall_mem_cons.mpr ⟨hread.kind_ne_eof, hinside⟩, ?_, fun more => ?_⟩
    · rw [tokensFrom_skipped hskipped, hread.tokensFrom_eq, hended, hcount]
      rfl
    · have hgap := hskipped.continued more
      rw [List.append_assoc] at hgap
      rw [List.append_assoc, List.append_assoc, tokensFrom_skipped hgap, (hread.continued more).tokensFrom_eq, hcontinued,
        hcount]
      rfl

theorem exists_covers (line : Nat) (text : Bytes) : ∃ ts, Covers line text ts := (lexes_tokensFrom line text).exists_covers

def Token.later (n : Nat) (t : Token) : Token := { t with line := t.line + n }

theorem Token.ReadFrom.later {t : Token} {bytes after : Bytes} (h : t.ReadFrom bytes after) (n : Nat) :
    (t.later n).ReadFrom bytes after := by
  cases h with
  | newline => exact .newline
  | comma => exact .comma
  | ident hw hafter => exact .ident hw hafter
  | int hw hafter => exact .int hw hafter
  | illegal hstray hunsigned => exact .illegal hstray hunsigned

/-- The same text further down has the same tokens there. -/
theorem tokensFrom_add (line n : Nat) (text : Bytes) :
    tokensFrom (line + n) text = (tokensFrom line text).map (Token.later n) := by
  have h := lexes_tokensFrom line text
  generalize tokensFrom line text = ts at h ⊢
  induction h with
  | @ended line gap hskipped =>
    have hgap := tokensFrom_skipped hskipped (line + n)
    rw [List.append_nil] at hgap
    rw [hgap, tokensFrom]
    rfl
  | @next line gap bytes after t ts hskipped hread hplace hrest ih =>
    subst hplace
    rw [tokensFrom_skipped hskipped, List.map_cons, ← ih, Nat.add_right_comm]
    exact (hread.later n).tokensFrom_eq

/-- A text without a line feed is one line. -/
theorem tokensFrom_one_line {line : Nat} {text : Bytes} (h : newline ∉ text) :
    ∀ t ∈ tokensFrom line text, t.kind ≠ .newline ∧ t.line = line := by
  have hlexes := lexes_tokensFrom line text
  generalize tokensFrom line text = ts at hlexes ⊢
  induction hlexes with
  | ended => simp
  | @next line gap bytes after t ts hskipped hread hplace hrest ih =>
    have hcount : bytes.count newline = 0 := by
      refine List.count_eq_zero.mpr fun hmem => h ?_
      exact List.mem_append_right gap (List.mem_append_left after hmem)
    have hafter : newline ∉ after := fun hmem => h (List.mem_append_right gap (List.mem_append_right bytes hmem))
    have hkind : t.kind ≠ .newline := by
      intro hk
      rw [hread.count_newline, if_pos hk] at hcount
      cases hcount
    rw [hcount] at ih
    exact List.forall_mem_cons.mpr ⟨⟨hkind, hplace⟩, ih hafter⟩

/-- Identifiers are words made of bytes of the text. -/
theorem isWord_of_ident {line : Nat} {text : Bytes} :
    ∀ t ∈ tokensFrom line text, t.kind = .ident → IsWord t.text ∧ t.text ⊆ text := by
  have h := lexes_tokensFrom line text
  generalize tokensFrom line text = ts at h ⊢
  induction h with
  | ended => simp
  | @next line gap bytes after t ts hskipped hread hplace hrest ih =>
    refine List.forall_mem_cons.mpr ⟨fun hk => ?_, fun u hu hk => ?_⟩
    · cases hread with
      | ident hw =>
        exact ⟨hw, List.subset_append_of_subset_right gap (List.subset_append_left _ _)⟩
      | newline | comma | int | illegal => cases hk
    · obtain ⟨hword, hsub⟩ := ih u hu hk
      refine ⟨hword, List.subset_append_of_subset_right gap ?_⟩
      exact List.subset_append_of_subset_right bytes hsub

end StackMachine
