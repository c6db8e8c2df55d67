import Mathlib.Data.List.TakeWhile
import StackMachine.Proofs.Glyphs
import StackMachine.Repl

namespace StackMachine

section Lowering

/-- A glyph in lower case. -/
def Glyph.lowered (g : Glyph) : Bytes := String.utf8EncodeChar (Char.ofNat (lowerCode g.code))

theorem lowered_lone : ∀ c : UInt8, c < 0x80 → (loneGlyph c).lowered = [lowerByte c] :=
  forall_byte (by decide +kernel)

/-- No character beyond ASCII but two has an ASCII letter for its lower case. -/
theorem lowerRuns_beyond : ∀ run ∈ lowerRuns,
    0x80 ≤ run.first + run.offset ∨ run.last ≤ run.first ∧ (run.first = 0x130 ∨ run.first = 0x212A) := by
  decide +kernel

theorem lowerCode_beyond {code : Nat} (h : 0x80 ≤ code) (hi : code ≠ 0x130) (hk : code ≠ 0x212A) :
    0x80 ≤ lowerCode code := by
  rw [lowerCode, if_neg (by omega), mapCode]
  cases hrun : lowerRuns.find? (·.holds code) with
  | none => exact h
  | some run =>
    have hholds : run.holds code = true := by simpa using List.find?_some hrun
    simp only [CaseRun.holds, Bool.and_eq_true, decide_eq_true_eq] at hholds
    have hbeyond := lowerRuns_beyond run (List.mem_of_find?_eq_some hrun)
    dsimp only
    omega

/-- What a foreign character is in lower case is not ASCII, or it is the zero byte that stands for no character. -/
theorem Glyph.Foreign.lowered {g : Glyph} (h : g.Foreign) : ∃ b ∈ g.lowered, b = 0 ∨ 0x80 ≤ b := by
  obtain ⟨hne, hbytes⟩ := utf8EncodeChar_beyond (lowerCode_beyond h.1 h.2.1 h.2.2.1)
  obtain ⟨b, hb⟩ := List.exists_mem_of_ne_nil _ hne
  exact ⟨b, hb, hbytes b hb⟩

theorem lower_append {p : Bytes} (hp : ∀ c ∈ p, c < 0x80) (text : Bytes) :
    ∃ rest, lower (p ++ text) = p.map lowerByte ++ rest := by
  unfold lower
  by_cases hascii : isAscii (p ++ text) = true
  · rw [if_pos hascii, List.map_append]
    exact ⟨_, rfl⟩
  · have hglyphs : glyphs (p ++ text) = p.map loneGlyph ++ glyphs text := by
      clear hascii
      induction p with
      | nil => rfl
      | cons c p ih =>
        obtain ⟨hc, hp⟩ := List.forall_mem_cons.mp hp
        rw [List.cons_append, glyphs_cons_ascii hc, ih hp]
        rfl
    have hlowered : (p.map loneGlyph).flatMap Glyph.lowered = p.map lowerByte := by
      rw [List.flatMap_map, List.flatMap_congr fun c hc => lowered_lone c (hp c hc)]
      exact List.map_eq_flatMap.symm
    have hmap : mapCodes lowerCode (p ++ text) = (glyphs (p ++ text)).flatMap Glyph.lowered := rfl
    rw [if_neg hascii, hmap, hglyphs, List.flatMap_append, hlowered]
    exact ⟨_, rfl⟩

theorem lower_foreign {w v : Bytes} (h : ∀ c ∈ w, isWordByte c = true) (hw : isAscii w = false)
    (hv : StartsAscii v) : ∃ b ∈ lower (w ++ v), b = 0 ∨ 0x80 ≤ b := by
  have hascii : ¬ isAscii (w ++ v) = true := by
    rw [isAscii, List.all_append, ← isAscii, hw]
    simp
  obtain ⟨g, hg, hforeign⟩ := exists_foreign h hw
  obtain ⟨b, hb, hbeyond⟩ := hforeign.lowered
  have hmap : mapCodes lowerCode (w ++ v) = (glyphs (w ++ v)).flatMap Glyph.lowered := rfl
  refine ⟨b, ?_, hbeyond⟩
  rw [lower, if_neg hascii, hmap, glyphs_append hv, List.flatMap_append]
  exact List.mem_append_left _ (List.mem_flatMap.mpr ⟨g, hg, hb⟩)

end Lowering

section Words

theorem glyphWords_append {gs : List Glyph} (h : ∀ g ∈ gs, g.isBlank = false) (run rest : List Glyph) :
    glyphWords run (gs ++ rest) = glyphWords (gs.reverse ++ run) rest := by
  induction gs generalizing run with
  | nil => rfl
  | cons g gs ih =>
    obtain ⟨hg, hgs⟩ := List.forall_mem_cons.mp h
    rw [List.cons_append, glyphWords, hg, if_neg (by simp), ih hgs, List.reverse_cons, List.append_assoc]
    rfl

theorem glyphWords_run {run : List Glyph} (hne : run ≠ []) (gs : List Glyph) :
    ∃ more, glyphWords run gs = (run.reverse ++ gs.takeWhile (!·.isBlank)) :: more := by
  induction gs generalizing run with
  | nil =>
    rw [glyphWords, if_neg (by simpa using hne)]
    exact ⟨[], by simp⟩
  | cons g gs ih =>
    rw [glyphWords]
    cases hg : g.isBlank with
    | true =>
      rw [if_pos rfl, if_neg (by simpa using hne)]
      exact ⟨glyphWords [] gs, by simp [hg]⟩
    | false =>
      obtain ⟨more, hmore⟩ := ih (List.cons_ne_nil g run)
      rw [if_neg (by simp), hmore]
      exact ⟨more, by simp [hg]⟩

/-- The first word of a text that begins with glyphs other than white space. -/
theorem words_first {text : Bytes} {gs rest : List Glyph} (htext : glyphs text = gs ++ rest) (hne : gs ≠ [])
    (h : ∀ g ∈ gs, g.isBlank = false) :
    ∃ more, words text = (ofGlyphs gs ++ ofGlyphs (rest.takeWhile (!·.isBlank))) :: more := by
  have hrun : gs.reverse ++ [] ≠ [] := by simpa using hne
  obtain ⟨more, hmore⟩ := glyphWords_run hrun rest
  rw [words, htext, glyphWords_append h, hmore]
  exact ⟨more.map ofGlyphs, by simp [ofGlyphs]⟩

/-- White space and the separators of the language do not agree, but a byte that ends a word is ASCII, and the first
word of the line is the word itself or goes on with that byte. -/
theorem words_word {w rest : Bytes} (hw : IsWord w) (hrest : Closes rest) (hascii : StartsAscii rest) :
    ∃ v more, words (w ++ rest) = (w ++ v) :: more ∧
      (v = [] ∨ ∃ c v', v = c :: v' ∧ c < 0x80 ∧ isWordByte c = false) := by
  have hne : glyphs w ≠ [] := by
    intro hnil
    have hback := ofGlyphs_glyphs w
    rw [hnil] at hback
    rw [← hback] at hw
    exact hw
  obtain ⟨more, hwords⟩ := words_first (glyphs_append hascii w) hne (not_blank_word hw.isWordByte)
  rw [ofGlyphs_glyphs] at hwords
  refine ⟨_, more, hwords, ?_⟩
  cases rest with
  | nil => exact .inl rfl
  | cons c rest =>
    have hc : c < 0x80 := hascii c rfl
    rw [glyphs_cons_ascii hc, List.takeWhile_cons]
    cases hblank : (loneGlyph c).isBlank with
    | true => exact .inl rfl
    | false => exact .inr ⟨c, _, by rw [if_pos (by simp), ofGlyphs_cons, bytes_loneGlyph]; rfl, hc, hrest⟩

theorem gap_blank : ∀ c : UInt8, isGapByte c = true → c < 0x80 ∧ (loneGlyph c).isBlank = true :=
  forall_byte (by decide +kernel)

theorem words_gap {c : UInt8} (hc : isGapByte c = true) (rest : Bytes) : words (c :: rest) = words rest := by
  obtain ⟨hlt, hblank⟩ := gap_blank c hc
  rw [words, glyphs_cons_ascii hlt, glyphWords, if_pos hblank]
  rfl

theorem comment_not_blank : ∀ c : UInt8, startsComment c = true → c < 0x80 ∧ (loneGlyph c).isBlank = false :=
  forall_byte (by decide +kernel)

end Words

section Accepted

/-- How a line begins that the parser accepts, and what it gives. -/
inductive Accepted : Bytes → Option Statement → Prop
  | blank : Accepted [] none
  | comment {c : UInt8} (rest : Bytes) (starts : startsComment c = true) : Accepted (c :: rest) none
  | word {w rest : Bytes} {s : Statement} (isWord : IsWord w) (closes : Closes rest) (ascii : StartsAscii rest)
      (names : s.word = upper w) : Accepted (w ++ rest) (some s)
  | gap {c : UInt8} {rest : Bytes} {o : Option Statement} (isGap : isGapByte c = true) (h : Accepted rest o) :
      Accepted (c :: rest) o

/-- A byte beyond ASCII that no word holds begins nothing. -/
theorem illegal_beyond (c : UInt8) (h : (decide (c < 0x80) || isWordByte c) = false) :
    isGapByte c = false ∧ c ≠ newline ∧ startsComment c = false ∧ c ≠ byte ',' ∧ isDigitByte c = false ∧
      isSign c = false ∧ startsWord c = false := by
  rw [Bool.or_eq_false_iff, decide_eq_false_iff_not, UInt8.lt_iff_toNat_lt] at h
  obtain ⟨hbeyond, hword⟩ := h
  rw [← Bool.not_eq_true, isWordByte_iff, not_or] at hword
  simp only [ne_eq, eq_comma_iff, eq_newline_iff, ← Bool.not_eq_true, isGapByte_iff, startsComment_iff, isSign_iff, hword,
    and_true, true_and]
  have hnum : 128 ≤ c.toNat := Nat.le_of_not_lt hbeyond
  omega

theorem startsAscii_of_read {s : Statement} {rest : Bytes} {statements : List Statement} (hrest : Closes rest)
    (h : statementsFrom (some s) (tokensFrom 1 rest) = .ok statements) : StartsAscii rest := by
  intro c hc
  by_contra hbeyond
  obtain ⟨more, rfl⟩ : ∃ more, rest = c :: more := List.head?_eq_some_iff.mp hc
  obtain ⟨hgap, hline, hcomment, hcomma, hdigit, hsign, hword⟩ :=
    illegal_beyond c (by rw [decide_eq_false hbeyond]; exact hrest)
  rw [tokensFrom] at h
  simp only [hgap, hline, hcomment, hcomma, startsNumber, hdigit, hsign, hword, if_false, Bool.false_eq_true,
    Bool.false_and, Bool.or_self] at h
  cases h

theorem accepted_word {c : UInt8} {rest : Bytes} {o : Option Statement} (hword : startsWord c = true)
    (hrest : newline ∉ rest)
    (h : statementsFrom (some ⟨upper (c :: rest.takeWhile isWordByte), [], 1⟩)
      (tokensFrom 1 (rest.dropWhile isWordByte)) = .ok o.toList) : Accepted (c :: rest) o := by
  have hmore : newline ∉ rest.dropWhile isWordByte := fun hmem => hrest ((List.dropWhile_sublist _).subset hmem)
  obtain ⟨s, hs, hsword, -⟩ := statementsFrom_some_line (fun t ht => (tokensFrom_one_line hmore t ht).1) h
  have ho : o = some s := Option.toList_eq_singleton_iff.mp hs
  have hcloses := closes_dropWhile rest
  have hsplit : c :: rest = (c :: rest.takeWhile isWordByte) ++ rest.dropWhile isWordByte := by
    rw [List.cons_append, List.takeWhile_append_dropWhile]
  rw [hsplit, ho]
  exact .word ⟨hword, List.all_eq_true.mp List.all_takeWhile⟩ hcloses (startsAscii_of_read hcloses h) hsword

theorem accepted_of_parse {line : Bytes} {o : Option Statement} (h : newline ∉ line)
    (hp : parse line = .ok o.toList) : Accepted line o := by
  induction line with
  | nil =>
    rw [parse, tokens, tokensFrom] at hp
    cases o with
    | none => exact .blank
    | some s => cases hp
  | cons c rest ih =>
    have hline : c ≠ newline := by
      rintro rfl
      exact h List.mem_cons_self
    have hrest : newline ∉ rest := List.not_mem_of_not_mem_cons h
    rw [parse, tokens] at hp
    by_cases hgap : isGapByte c = true
    · rw [tokensFrom_gap hgap] at hp
      exact .gap hgap (ih hrest hp)
    rw [tokensFrom, if_neg hgap, if_neg hline] at hp
    by_cases hcomment : startsComment c = true
    · -- the comment reaches to the end of the line
      have hend : rest.dropWhile (· != newline) = [] := by
        rw [List.dropWhile_eq_nil_iff]
        intro b hb
        simpa using fun heq : b = newline => hrest (heq ▸ hb)
      rw [if_pos hcomment, hend, tokensFrom] at hp
      cases o with
      | none => exact .comment rest hcomment
      | some s => cases hp
    rw [if_neg hcomment] at hp
    by_cases hcomma : c = byte ','
    · rw [if_pos hcomma] at hp
      cases hp
    rw [if_neg hcomma] at hp
    by_cases hnumber : startsNumber c rest = true
    · rw [if_pos hnumber] at hp
      cases hp
    rw [if_neg hnumber] at hp
    by_cases hword : startsWord c = true
    · rw [if_pos hword] at hp
      exact accepted_word hword hrest hp
    · rw [if_neg hword] at hp
      cases hp

end Accepted

namespace ReplCommand

/-- The words that the loop takes for its own. -/
def names : List Bytes :=
  [utf8 "quit", utf8 "exit", utf8 "q", utf8 "help", utf8 "h", utf8 "?", utf8 "regs", utf8 "stack", utf8 "catalog",
    utf8 "next", utf8 "reset", utf8 "history", utf8 "trace", utf8 "staged", utf8 "stats", utf8 "disasm"]

theorem ofWords?_eq_none_iff {word : Bytes} {rest : List Bytes} :
    ofWords? (word :: rest) = none ↔ lower word ∉ names := by
  have hbranch : ∀ {p : Prop} [Decidable p] {c : ReplCommand} {x : Option ReplCommand},
      (if p then some c else x) = none ↔ ¬ p ∧ x = none := by
    intro p _ c x
    split <;> simp [*]
  cases rest with
  | nil | cons =>
    simp only [ofWords?, hbranch, names, List.mem_cons, List.not_mem_nil, not_or, and_assoc]
    simp

theorem names_bytes : ∀ name ∈ names, ∀ b ∈ name, b ≠ 0 ∧ b < 0x80 ∧ startsComment b = false ∧
    (isWordByte b = true ∨ name.length = 1) := by
  decide +kernel

/-- In capitals, as statements have their words, a name is still one of a command and not one of an opcode. -/
theorem names_upper : ∀ name ∈ names, lower (upper name) ∈ names ∧ Opcode.ofName? (upper name) = none := by
  decide +kernel

section Foremost

theorem ascii_case : ∀ c : UInt8, c < 0x80 → lowerByte c < 0x80 ∧ upperByte (lowerByte c) = upperByte c ∧
    (isWordByte c = false → isWordByte (lowerByte c) = false) ∧ (startsComment c = true → lowerByte c = c) :=
  forall_byte (by decide +kernel)

theorem upper_lower {w : Bytes} (h : isAscii w = true) : upper (lower w) = upper w := by
  have hbytes : ∀ c ∈ w, c < 0x80 := fun c hc => of_decide_eq_true (List.all_eq_true.mp h c hc)
  have hlower : isAscii (w.map lowerByte) = true := by
    rw [isAscii, List.all_map]
    exact List.all_eq_true.mpr fun c hc => decide_eq_true (ascii_case c (hbytes c hc)).1
  rw [lower, if_pos h, upper, if_pos hlower, upper, if_pos h, List.map_map]
  exact List.map_congr_left fun c hc => (ascii_case c (hbytes c hc)).2.1

/-- If what begins with a word and goes on with some other byte is a name, then the word alone is. -/
theorem name_of_word {w v : Bytes} (hw : IsWord w)
    (hv : v = [] ∨ ∃ c v', v = c :: v' ∧ c < 0x80 ∧ isWordByte c = false) (h : lower (w ++ v) ∈ names) :
    ∃ name ∈ names, upper w = upper name := by
  have hstarts : StartsAscii v := by
    rcases hv with rfl | ⟨c, v', rfl, hc, -⟩
    · simp [StartsAscii]
    · simpa [StartsAscii] using hc
  by_cases hascii : isAscii w = true
  · have hbytes : ∀ c ∈ w, c < 0x80 := fun c hc => of_decide_eq_true (List.all_eq_true.mp hascii c hc)
    rcases hv with rfl | ⟨c, v', rfl, hc, hclose⟩
    · rw [List.append_nil] at h
      exact ⟨lower w, h, (upper_lower hascii).symm⟩
    · -- the byte after the word stands in the name too, and is no byte of a word
      have hbegin : ∀ b ∈ w ++ [c], b < 0x80 := by
        simpa [or_imp, forall_and] using ⟨hbytes, hc⟩
      obtain ⟨rest, hlower⟩ := lower_append hbegin v'
      rw [List.append_assoc, List.singleton_append] at hlower
      have hmem : lowerByte c ∈ lower (w ++ c :: v') := by simp [hlower]
      have hlong : 2 ≤ (lower (w ++ c :: v')).length := by
        have hpos : 0 < w.length := List.length_pos_iff.mpr (by rintro rfl; exact hw)
        simp [hlower]
        omega
      have hnot := (ascii_case c hc).2.2.1 hclose
      rcases (names_bytes _ h _ hmem).2.2.2 with hword | hone
      · rw [hnot] at hword
        cases hword
      · omega
  · obtain ⟨b, hmem, hbeyond⟩ := lower_foreign hw.isWordByte (by simpa using hascii) hstarts
    obtain ⟨hzero, hlt, -⟩ := names_bytes _ h b hmem
    rcases hbeyond with hb | hb
    · exact absurd hb hzero
    · exact absurd hlt (UInt8.not_lt.mpr hb)

theorem not_name_of_comment {c : UInt8} (hc : startsComment c = true) (rest : Bytes) : lower (c :: rest) ∉ names := by
  intro h
  have hlt : c < 0x80 := (comment_not_blank c hc).1
  obtain ⟨more, hlower⟩ := lower_append (p := [c]) (by simpa using hlt) rest
  have hmem : c ∈ lower (c :: rest) := by
    rw [List.singleton_append] at hlower
    simp [hlower, (ascii_case c hlt).2.2.2 hc]
  obtain ⟨-, -, hnot, -⟩ := names_bytes _ h c hmem
  rw [hc] at hnot
  cases hnot

end Foremost

end ReplCommand

/-- What the loop finds foremost in a line that the parser accepts is one of its own names only if it is the word of the
statement. -/
theorem Accepted.first_word {line : Bytes} {o : Option Statement} (h : Accepted line o) :
    words line = [] ∧ o = none ∨ ∃ first more, words line = first :: more ∧
      (lower first ∈ ReplCommand.names → ∃ s ∈ o, ∃ name ∈ ReplCommand.names, s.word = upper name) := by
  induction h with
  | blank => exact .inl ⟨rfl, rfl⟩
  | @comment c rest starts =>
    obtain ⟨hlt, hblank⟩ := comment_not_blank c starts
    have hglyphs : glyphs (c :: rest) = [loneGlyph c] ++ glyphs rest := glyphs_cons_ascii hlt rest
    obtain ⟨more, hwords⟩ := words_first hglyphs (by simp) (by simpa using hblank)
    rw [ofGlyphs_cons, bytes_loneGlyph] at hwords
    exact .inr ⟨_, more, hwords, fun hname => absurd hname (ReplCommand.not_name_of_comment starts _)⟩
  | @word w rest s isWord closes ascii names =>
    obtain ⟨v, more, hwords, hv⟩ := words_word isWord closes ascii
    refine .inr ⟨w ++ v, more, hwords, fun hname => ?_⟩
    obtain ⟨name, hmem, hupper⟩ := ReplCommand.name_of_word isWord hv hname
    exact ⟨s, rfl, name, hmem, names.trans hupper⟩
  | @gap c rest o isGap _ ih => rwa [words_gap isGap]

namespace ReplInput

variable {line : Bytes} {o : Option Statement}

/-- The loop takes a line as the parser does, unless its statement begins with a command. -/
theorem ofLine_of_parseLine (h : newline ∉ line) (hp : parseLine line = .ok o)
    (hword : ∀ s ∈ o, ∀ name ∈ ReplCommand.names, s.word ≠ upper name) : ofLine line = o.elim .blank .statement := by
  have hparse : parse line = .ok o.toList := by rw [← parseLine_eq h, hp]; rfl
  unfold ofLine
  rcases (accepted_of_parse h hparse).first_word with ⟨hwords, rfl⟩ | ⟨first, more, hwords, hname⟩
  · rw [hwords]
    rfl
  · have hnone : ReplCommand.ofWords? (first :: more) = none := by
      rw [ReplCommand.ofWords?_eq_none_iff]
      intro hmem
      obtain ⟨s, hs, name, hn, heq⟩ := hname hmem
      exact hword s hs name hn heq
    rw [hwords, hnone, hp]
    cases o with
    | none | some s => rfl

/-- The loop leaves a statement to the engine if its word by itself is no command. -/
theorem ofLine_accepted (h : newline ∉ line) (hp : parseLine line = .ok o)
    (hword : ∀ s ∈ o, ReplCommand.ofWords? [s.word] = none) : ofLine line = o.elim .blank .statement := by
  refine ofLine_of_parseLine h hp fun s hs name hname heq => ?_
  have hnot := ReplCommand.ofWords?_eq_none_iff.mp (hword s hs)
  rw [heq] at hnot
  exact hnot (ReplCommand.names_upper name hname).1

theorem ofLine_opcode {s : Statement} {op : Opcode} (h : newline ∉ line) (hp : parseLine line = .ok (some s))
    (hop : Opcode.ofName? s.word = some op) : ofLine line = .statement s := by
  refine ofLine_of_parseLine h hp fun s' hs name hname heq => ?_
  cases hs
  rw [heq, (ReplCommand.names_upper name hname).2] at hop
  cases hop

end ReplInput

end StackMachine
