import StackMachine.Proofs.Lexing

namespace StackMachine

inductive Lexeme where
  | word (text : Bytes)
  | number (text : Bytes)
  | comma
  | other (c : UInt8)
  deriving DecidableEq

namespace Lexeme

def bytes : Lexeme → Bytes
  | .word text | .number text => text
  | .comma => [byte ',']
  | .other c => [c]

/-- The lexeme is made of the bytes that its kind is made of. -/
def Valid : Lexeme → Prop
  | .word text => IsWord text
  | .number text => IsNumber text
  | .comma => True
  | .other c => isWordByte c = false ∧ isGapByte c = false ∧ c ≠ byte ','

/-- No lexeme at the beginning of the text is longer. -/
def Longest (t : Lexeme) (rest : Bytes) : Prop :=
  ∀ u : Lexeme, u.Valid → u.bytes <+: t.bytes ++ rest → u.bytes.length ≤ t.bytes.length

end Lexeme

/-- A line cut into lexemes by maximal munch; blanks are passed over. -/
inductive Munched : Bytes → List Lexeme → Prop
  | done : Munched [] []
  | blank {c : UInt8} {rest : Bytes} {ls : List Lexeme} (gap : isGapByte c = true) (later : Munched rest ls) :
      Munched (c :: rest) ls
  | lexeme {t : Lexeme} {rest : Bytes} {ls : List Lexeme} (valid : t.Valid) (longest : t.Longest rest)
      (later : Munched rest ls) : Munched (t.bytes ++ rest) (t :: ls)

/-- A line up to its first comment. -/
def uncommented (line : Bytes) : Bytes := line.takeWhile (!startsComment ·)

namespace Lexeme

variable {t u : Lexeme}

/-- The lexeme that a text is taken for by its first bytes. -/
def ofBytes : Bytes → Lexeme
  | [] => .comma
  | c :: rest =>
    if startsWord c then .word (c :: rest)
    else if startsNumber c rest then .number (c :: rest)
    else if c = byte ',' then .comma
    else .other c

theorem notWordByte (c : UInt8) (h : isWordByte c = false) : startsWord c = false ∧ startsNumber c [] = false := by
  rw [← Bool.not_eq_true, isWordByte_iff, not_or, Bool.not_eq_true, Bool.not_eq_true] at h
  simp [startsNumber, h]

theorem startsNumber_notWord (c : UInt8) (h : (isDigitByte c || isSign c) = true) : startsWord c = false := by
  cases hword : startsWord c with
  | false => rfl
  | true =>
    obtain ⟨-, -, -, -, hdigit, hsign, -⟩ := startsWord_only c hword
    rw [hdigit, hsign] at h
    cases h

theorem Valid.ofBytes_bytes (h : t.Valid) : ofBytes t.bytes = t := by
  cases t with
  | word text =>
    cases text with
    | nil => exact h.elim
    | cons c rest => simp [bytes, ofBytes, h.1]
  | number text =>
    cases text with
    | nil => exact h.elim
    | cons c rest => simp [bytes, ofBytes, startsNumber_notWord c (startsNumber_first h.1), h.1]
  | comma => rfl
  | other c =>
    obtain ⟨hword, -, hcomma⟩ := h
    obtain ⟨hstart, hnumber⟩ := notWordByte c hword
    simp [bytes, ofBytes, hstart, hnumber, hcomma]

theorem Valid.eq_of_bytes (ht : t.Valid) (hu : u.Valid) (h : t.bytes = u.bytes) : t = u := by
  rw [← ht.ofBytes_bytes, h, hu.ofBytes_bytes]

theorem Valid.first (h : t.Valid) : ∃ c rest, t.bytes = c :: rest ∧ isGapByte c = false := by
  cases t with
  | word text =>
    cases text with
    | nil => exact h.elim
    | cons c rest => exact ⟨c, rest, rfl, (startsWord_only c h.1).1⟩
  | number text =>
    cases text with
    | nil => exact h.elim
    | cons c rest => exact ⟨c, rest, rfl, (startsNumber_only c (startsNumber_first h.1)).1⟩
  | comma => exact ⟨byte ',', [], rfl, rfl⟩
  | other c => exact ⟨c, [], rfl, h.2.1⟩

theorem Valid.tail (h : t.Valid) : ∀ b ∈ t.bytes.tail, isWordByte b = true := by
  cases t with
  | word text =>
    cases text with
    | nil => exact h.elim
    | cons c rest => exact h.2
  | number text =>
    cases text with
    | nil => exact h.elim
    | cons c rest => exact h.2
  | comma | other c => exact fun b hb => (List.not_mem_nil hb).elim

/-- A word or a number before a text that does not go on with it is as long as it can be. -/
theorem longest_of_closes {rest : Bytes} (ht : t.Valid) (hrest : Closes rest) : t.Longest rest := by
  intro u hu hprefix
  by_contra hlong
  obtain ⟨c, tail, hbytes, -⟩ := ht.first
  have hlength : 0 < t.bytes.length := by rw [hbytes]; exact Nat.succ_pos _
  -- the byte of `u` at the place where `t` ends is the first one of the rest
  have hlt : t.bytes.length - 1 < u.bytes.tail.length := by
    rw [List.length_tail]
    omega
  have hat : u.bytes.tail[t.bytes.length - 1]? = rest.head? := by
    obtain ⟨more, hmore⟩ := hprefix
    have hwhole : u.bytes[t.bytes.length]? = (u.bytes ++ more)[t.bytes.length]? :=
      (List.getElem?_append_left (by omega)).symm
    have hindex : t.bytes.length - 1 + 1 = t.bytes.length := by omega
    rw [List.getElem?_tail, hindex, hwhole, hmore,
      List.getElem?_append_right (Nat.le_refl _), Nat.sub_self, List.head?_eq_getElem?]
  rw [List.getElem?_eq_getElem hlt] at hat
  have hword := hu.tail _ (List.getElem_mem hlt)
  rw [Closes, ← hat, Option.any_some, hword] at hrest
  cases hrest

/-- A byte that begins no word and no number stands for itself. -/
theorem longest_single {c : UInt8} {rest : Bytes} (hword : startsWord c = false)
    (hnumber : startsNumber c rest = false) (hbytes : t.bytes = [c]) : t.Longest rest := by
  intro u hu hprefix
  rw [hbytes] at hprefix ⊢
  obtain ⟨more, hmore⟩ := hprefix
  cases u with
  | word text =>
    cases text with
    | nil => exact hu.elim
    | cons b tail =>
      obtain ⟨rfl, -⟩ := List.cons.inj hmore
      rw [hu.1] at hword
      cases hword
  | number text =>
    cases text with
    | nil => exact hu.elim
    | cons b tail =>
      obtain ⟨rfl, hrest⟩ := List.cons.inj hmore
      have hrest : tail ++ more = rest := hrest
      have hstart := startsNumber_append hu.1 more
      rw [hrest, hnumber] at hstart
      cases hstart
  | comma | other b => exact Nat.le_refl 1

/-- The token of the lexeme in a line. -/
def token (line : Nat) : Lexeme → Token
  | .word text => ⟨.ident, text, line⟩
  | .number text => ⟨.int, text, line⟩
  | .comma => ⟨.comma, [byte ','], line⟩
  | .other c => ⟨.illegal, latinText c, line⟩

end Lexeme

namespace Munched

variable {text : Bytes} {ls : List Lexeme}

theorem unfold_once (h : Munched text ls) : text = [] ∧ ls = [] ∨
    (∃ c rest, text = c :: rest ∧ isGapByte c = true ∧ Munched rest ls) ∨
    ∃ t rest ls', text = t.bytes ++ rest ∧ ls = t :: ls' ∧ t.Valid ∧ t.Longest rest ∧ Munched rest ls' := by
  cases h with
  | done => exact .inl ⟨rfl, rfl⟩
  | blank gap later => exact .inr (.inl ⟨_, _, rfl, gap, later⟩)
  | lexeme valid longest later => exact .inr (.inr ⟨_, _, _, rfl, rfl, valid, longest, later⟩)

theorem unique {ls' : List Lexeme} (h : Munched text ls) (h' : Munched text ls') : ls' = ls := by
  induction h generalizing ls' with
  | done =>
    rcases h'.unfold_once with ⟨-, hnil⟩ | ⟨c, rest, hcons, -⟩ | ⟨t, rest, more, htext, -, valid, -⟩
    · exact hnil
    · cases hcons
    · obtain ⟨c, tail, hbytes, -⟩ := valid.first
      rw [hbytes] at htext
      cases htext
  | @blank c rest ls gap later ih =>
    rcases h'.unfold_once with ⟨hnil, -⟩ | ⟨c', rest', hcons, -, hlater⟩ | ⟨t, rest', more, htext, -, valid, -⟩
    · cases hnil
    · obtain ⟨rfl, rfl⟩ := List.cons.inj hcons
      exact ih hlater
    · obtain ⟨b, tail, hbytes, hb⟩ := valid.first
      rw [hbytes] at htext
      obtain ⟨rfl, -⟩ := List.cons.inj htext
      rw [gap] at hb
      cases hb
  | @lexeme t rest ls valid longest later ih =>
    rcases h'.unfold_once with ⟨hnil, -⟩ | ⟨c, rest', hcons, gap, -⟩ | ⟨u, rest', more, htext, rfl, valid', longest', hlater⟩
    · obtain ⟨c, tail, hbytes, -⟩ := valid.first
      rw [hbytes] at hnil
      cases hnil
    · obtain ⟨b, tail, hbytes, hb⟩ := valid.first
      rw [hbytes] at hcons
      obtain ⟨rfl, -⟩ := List.cons.inj hcons
      rw [gap] at hb
      cases hb
    · -- each of the two lexemes is the longest one, so they are the same
      have hle : u.bytes.length ≤ t.bytes.length := longest u valid' (htext ▸ List.prefix_append _ _)
      have hge : t.bytes.length ≤ u.bytes.length := longest' t valid (htext ▸ List.prefix_append _ _)
      obtain ⟨hbytes, rfl⟩ := List.append_inj htext (by omega)
      rw [valid.eq_of_bytes valid' hbytes, ih hlater]

end Munched

section Uncommented

variable {gap after : Bytes} {ls : List Lexeme}

theorem uncommented_append {bytes : Bytes} (h : ∀ b ∈ bytes, startsComment b = false) (after : Bytes) :
    uncommented (bytes ++ after) = bytes ++ uncommented after :=
  List.takeWhile_append_of_pos fun b hb => by rw [h b hb]; rfl

theorem Closes.uncommented (h : Closes after) : Closes (uncommented after) := by
  cases after with
  | nil => exact h
  | cons c after =>
    have hc : isWordByte c = false := h
    cases hcomment : startsComment c with
    | true => simp [Closes, StackMachine.uncommented, hcomment]
    | false => simp [Closes, StackMachine.uncommented, hcomment, hc]

theorem startsNumber_uncommented {c : UInt8} (h : startsNumber c after = false) :
    startsNumber c (uncommented after) = false := by
  cases hrest : startsNumber c (uncommented after) with
  | false => rfl
  | true =>
    have hwhole := startsNumber_append hrest (after.dropWhile (!startsComment ·))
    rw [uncommented, List.takeWhile_append_dropWhile, h] at hwhole
    cases hwhole

theorem isGapByte_only (c : UInt8) (h : isGapByte c = true) : startsComment c = false := by
  rw [isGapByte_iff] at h
  rw [← Bool.not_eq_true, startsComment_iff]
  omega

theorem isWordByte_only (c : UInt8) (h : isWordByte c = true) : startsComment c = false := by
  rcases (isWordByte_iff c).mp h with hword | hdigit
  · obtain ⟨-, -, hcomment, -⟩ := startsWord_only c hword
    exact hcomment
  · obtain ⟨-, -, hcomment, -⟩ := startsNumber_only c (by rw [hdigit, Bool.true_or])
    exact hcomment

theorem Passed.munched {first : Bytes} (h : Passed first after) (hline : newline ∉ after)
    (hls : Munched (uncommented after) ls) : Munched (uncommented (first ++ after)) ls := by
  cases h with
  | @blank c _ hgap =>
    rw [uncommented_append (List.forall_mem_singleton.mpr (isGapByte_only c hgap))]
    exact .blank hgap hls
  | @comment c body _ hstart hinside hends =>
    -- within a line a comment is the last thing
    have hnil : after = [] := by
      rcases hends with hnil | hhead
      · exact hnil
      · exact absurd (List.mem_of_mem_head? hhead) hline
    have hcut : uncommented (c :: body ++ after) = [] := by simp [uncommented, hstart]
    rw [hnil] at hls
    rw [hcut]
    exact hls

theorem Skipped.munched (h : Skipped gap after) (hline : newline ∉ after) (hls : Munched (uncommented after) ls) :
    Munched (uncommented (gap ++ after)) ls := by
  induction h with
  | nil => exact hls
  | cons hpassed hrest ih =>
    rw [List.append_assoc]
    exact hpassed.munched (List.not_mem_append hrest.newline_not_mem hline) (ih hline hls)

/-- Within a line a token is a lexeme of maximal length. -/
theorem Token.ReadFrom.exists_lexeme {t : Token} {bytes : Bytes} (h : t.ReadFrom bytes after) (hk : t.kind ≠ .newline) :
    ∃ u : Lexeme, u.bytes = bytes ∧ u.token t.line = t ∧ u.Valid ∧ u.Longest (uncommented after) ∧
      ∀ b ∈ bytes, startsComment b = false := by
  cases h with
  | newline => exact absurd rfl hk
  | comma =>
    have hnumber : startsNumber (byte ',') (uncommented after) = false := rfl
    refine ⟨.comma, rfl, rfl, trivial, Lexeme.longest_single rfl hnumber rfl, ?_⟩
    exact List.forall_mem_singleton.mpr rfl
  | ident hw hafter =>
    have hvalid : (Lexeme.word bytes).Valid := hw
    refine ⟨.word bytes, rfl, rfl, hvalid, Lexeme.longest_of_closes hvalid hafter.uncommented, ?_⟩
    exact fun b hb => isWordByte_only b (hw.isWordByte b hb)
  | int hw hafter =>
    have hvalid : (Lexeme.number bytes).Valid := hw
    refine ⟨.number bytes, rfl, rfl, hvalid, Lexeme.longest_of_closes hvalid hafter.uncommented, ?_⟩
    cases bytes with
    | nil => exact hw.elim
    | cons c rest =>
      obtain ⟨hc, hrest⟩ := hw
      obtain ⟨-, -, hcomment, -⟩ := startsNumber_only c (startsNumber_first hc)
      exact List.forall_mem_cons.mpr ⟨hcomment, fun b hb => isWordByte_only b (hrest b hb)⟩
  | @illegal c _ _ hstray hunsigned =>
    simp only [isStray, Bool.and_eq_true, Bool.not_eq_true', bne_iff_ne] at hstray
    obtain ⟨⟨⟨⟨hgap, -⟩, hcomment⟩, hcomma⟩, hword⟩ := hstray
    have hvalid : (Lexeme.other c).Valid := ⟨hword, hgap, hcomma⟩
    have hlongest : (Lexeme.other c).Longest (uncommented after) :=
      Lexeme.longest_single (Lexeme.notWordByte c hword).1 (startsNumber_uncommented hunsigned) rfl
    exact ⟨.other c, rfl, rfl, hvalid, hlongest, List.forall_mem_singleton.mpr hcomment⟩

theorem Lexes.exists_munched {line : Nat} {text : Bytes} {ts : List Token} (h : Lexes line text ts)
    (hline : newline ∉ text) :
    ∃ ls, Munched (uncommented text) ls ∧ ts = ls.map (Lexeme.token line) ++ [⟨.eof, [], line⟩] := by
  induction h with
  | @ended line gap hskipped =>
    have hls := hskipped.munched List.not_mem_nil .done
    rw [List.append_nil] at hls
    exact ⟨[], hls, rfl⟩
  | @next line gap bytes after t ts hskipped hread hplace hrest ih =>
    have hinside : newline ∉ bytes ++ after := fun hmem => hline (List.mem_append_right gap hmem)
    have hcount : bytes.count newline = 0 :=
      List.count_eq_zero.mpr fun hmem => hinside (List.mem_append_left after hmem)
    have hkind : t.kind ≠ .newline := by
      intro hk
      rw [hread.count_newline, if_pos hk] at hcount
      cases hcount
    obtain ⟨ls, hls, hts⟩ := ih fun hmem => hinside (List.mem_append_right bytes hmem)
    obtain ⟨u, rfl, htoken, hvalid, hlongest, hcomment⟩ := hread.exists_lexeme hkind
    refine ⟨u :: ls, hskipped.munched hinside ?_, ?_⟩
    · rw [uncommented_append hcomment]
      exact .lexeme hvalid hlongest hls
    · rw [hts, hcount, Nat.add_zero, ← htoken, hplace]
      rfl

end Uncommented

/-- The tokens of a line are those of its lexemes. -/
theorem tokensFrom_munched {line : Nat} {text : Bytes} {ls : List Lexeme} (hline : newline ∉ text)
    (h : Munched (uncommented text) ls) :
    tokensFrom line text = ls.map (Lexeme.token line) ++ [⟨.eof, [], line⟩] := by
  obtain ⟨ls', hls', htokens⟩ := (lexes_tokensFrom line text).exists_munched hline
  rw [htokens, h.unique hls']

theorem exists_munched {text : Bytes} (hline : newline ∉ text) : ∃ ls, Munched (uncommented text) ls := by
  obtain ⟨ls, hls, -⟩ := (lexes_tokensFrom 1 text).exists_munched hline
  exact ⟨ls, hls⟩

end StackMachine
