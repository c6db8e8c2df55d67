import StackMachine.Proofs.CanonicalText

namespace StackMachine

/-- Where a text begins, a character that stands before it has ended. -/
def StartsAscii (text : Bytes) : Prop := ∀ c ∈ text.head?, c < 0x80

theorem isTrailing_ascii : ∀ c : UInt8, c < 0x80 → isTrailing c = false :=
  forall_byte (by decide +kernel)

/-- A byte is a glyph of its own if it begins no longer one. -/
theorem glyphs_cons_lone {a : UInt8} {text : Bytes} (hpair : ∀ b r, text = b :: r → isPair a b = false)
    (htriple : ∀ b c r, text = b :: c :: r → isTriple a b c = false)
    (hquad : ∀ b c d r, text = b :: c :: d :: r → isQuad a b c d = false) :
    glyphs (a :: text) = loneGlyph a :: glyphs text := by
  match text with
  | [] => rfl
  | [b] => simp [glyphs, hpair b [] rfl]
  | [b, c] => simp [glyphs, hpair b [c] rfl, htriple b c [] rfl]
  | b :: c :: d :: r => simp [glyphs, hpair b (c :: d :: r) rfl, htriple b c (d :: r) rfl, hquad b c d r rfl]

theorem glyphs_pair {a b : UInt8} (pair : isPair a b = true) (text : Bytes) :
    glyphs (a :: b :: text) = pairGlyph a b :: glyphs text := by
  match text with
  | [] | [_] | _ :: _ :: _ => simp [glyphs, pair]

theorem glyphs_triple {a b c : UInt8} (pair : ¬ isPair a b = true) (triple : isTriple a b c = true) (text : Bytes) :
    glyphs (a :: b :: c :: text) = tripleGlyph a b c :: glyphs text := by
  match text with
  | [] | _ :: _ => simp [glyphs, pair, triple]

theorem glyphs_append {rest : Bytes} (h : StartsAscii rest) (text : Bytes) :
    glyphs (text ++ rest) = glyphs text ++ glyphs rest := by
  have hpair : ∀ a b, b ∈ rest.head? → isPair a b = false := by
    intro a b hb
    simp [isPair, isTrailing_ascii b (h b hb)]
  have htriple : ∀ a b c, b ∈ rest.head? ∨ c ∈ rest.head? → isTriple a b c = false := by
    rintro a b c (hb | hc)
    · simp [isTriple, isTrailing_ascii b (h b hb)]
    · simp [isTriple, isTrailing_ascii c (h c hc)]
  have hquad : ∀ a b c d, b ∈ rest.head? ∨ c ∈ rest.head? ∨ d ∈ rest.head? → isQuad a b c d = false := by
    rintro a b c d (hb | hc | hd)
    · simp [isQuad, isTrailing_ascii b (h b hb)]
    · simp [isQuad, isTrailing_ascii c (h c hc)]
    · simp [isQuad, isTrailing_ascii d (h d hd)]
  -- where no longer glyph begins in the text, none reaches into what follows it
  fun_induction glyphs text with
  | case1 => rfl
  | case2 a =>
    rw [List.singleton_append, glyphs_cons_lone]
    · rfl
    all_goals grind
  | case3 a b r pair ih => simp only [List.cons_append, glyphs_pair pair, ih]
  | case4 a b pair ih =>
    rw [List.cons_append, glyphs_cons_lone, ih]
    · rfl
    all_goals grind
  | case5 a b pair c r triple ih => simp only [List.cons_append, glyphs_triple pair triple, ih]
  | case6 a b pair c triple ih =>
    rw [List.cons_append, glyphs_cons_lone, ih]
    · rfl
    all_goals grind
  | case7 a b pair c triple d r quad ih =>
    simp only [List.cons_append, glyphs, if_neg pair, if_neg triple, if_pos quad, ih]
  | case8 a b pair c triple d r quad ih =>
    rw [List.cons_append, glyphs_cons_lone, ih]
    · rfl
    all_goals grind

section Encoding

variable {a b c d : UInt8} {n : Nat}

theorem toNat_ofNat_char (h : n.isValidChar) : (Char.ofNat n).toNat = n := by
  unfold Char.ofNat
  rw [dif_pos h]
  rfl

theorem utf8EncodeChar_ofNat (h : n.isValidChar) :
    String.utf8EncodeChar (Char.ofNat n) =
      if n ≤ 0x7F then [UInt8.ofNat n]
      else if n ≤ 0x7FF then [UInt8.ofNat (n / 64 % 32 + 0xC0), UInt8.ofNat (n % 64 + 0x80)]
      else if n ≤ 0xFFFF then
        [UInt8.ofNat (n / 4096 % 16 + 0xE0), UInt8.ofNat (n / 64 % 64 + 0x80), UInt8.ofNat (n % 64 + 0x80)]
      else [UInt8.ofNat (n / 262144 % 8 + 0xF0), UInt8.ofNat (n / 4096 % 64 + 0x80), UInt8.ofNat (n / 64 % 64 + 0x80),
        UInt8.ofNat (n % 64 + 0x80)] := by
  have hvalue : (Char.ofNat n).val.toNat = n := toNat_ofNat_char h
  simp only [String.utf8EncodeChar, hvalue]

/-- A character beyond ASCII has no ASCII byte, but for the zero byte that stands for no character. -/
theorem utf8EncodeChar_beyond (h : 0x80 ≤ n) :
    String.utf8EncodeChar (Char.ofNat n) ≠ [] ∧ ∀ b ∈ String.utf8EncodeChar (Char.ofNat n), b = 0 ∨ 0x80 ≤ b := by
  have hbig : ∀ k, 0x80 ≤ k → k < 256 → 0x80 ≤ UInt8.ofNat k := by
    intro k hge hlt
    rw [UInt8.le_iff_toNat_le, UInt8.toNat_ofNat_of_lt' hlt]
    exact hge
  by_cases hvalid : n.isValidChar
  · rw [utf8EncodeChar_ofNat hvalid, if_neg (by omega)]
    split
    next =>
      refine ⟨by simp, List.forall_mem_cons.mpr ⟨.inr (hbig _ (by omega) (by omega)), ?_⟩⟩
      exact List.forall_mem_singleton.mpr (.inr (hbig _ (by omega) (by omega)))
    next =>
      split
      next =>
        refine ⟨by simp, List.forall_mem_cons.mpr ⟨.inr (hbig _ (by omega) (by omega)), ?_⟩⟩
        refine List.forall_mem_cons.mpr ⟨.inr (hbig _ (by omega) (by omega)), ?_⟩
        exact List.forall_mem_singleton.mpr (.inr (hbig _ (by omega) (by omega)))
      next =>
        refine ⟨by simp, List.forall_mem_cons.mpr ⟨.inr (hbig _ (by omega) (by omega)), ?_⟩⟩
        refine List.forall_mem_cons.mpr ⟨.inr (hbig _ (by omega) (by omega)), ?_⟩
        refine List.forall_mem_cons.mpr ⟨.inr (hbig _ (by omega) (by omega)), ?_⟩
        exact List.forall_mem_singleton.mpr (.inr (hbig _ (by omega) (by omega)))
  · rw [Char.ofNat, dif_neg hvalid]
    decide +kernel

theorem ofNat_eq_byte (h : n = a.toNat) : UInt8.ofNat n = a := by
  rw [h, UInt8.ofNat_toNat]

theorem pair_bounds (pair : isPair a b = true) :
    0xC2 ≤ a.toNat ∧ a.toNat ≤ 0xDF ∧ 0x80 ≤ b.toNat ∧ b.toNat ≤ 0xBF := by
  simpa [isPair, isTrailing, UInt8.le_iff_toNat_le, and_assoc] using pair

theorem triple_bounds (triple : isTriple a b c = true) :
    0x80 ≤ b.toNat ∧ b.toNat ≤ 0xBF ∧ 0x80 ≤ c.toNat ∧ c.toNat ≤ 0xBF ∧ 0xE0 ≤ a.toNat ∧ a.toNat ≤ 0xEF ∧
      (a.toNat = 0xE0 → 0xA0 ≤ b.toNat) ∧ (a.toNat = 0xED → b.toNat ≤ 0x9F) := by
  simp [isTriple, isTrailing, UInt8.le_iff_toNat_le, ← UInt8.toNat_inj] at triple
  omega

theorem quad_bounds (quad : isQuad a b c d = true) :
    0x80 ≤ b.toNat ∧ b.toNat ≤ 0xBF ∧ 0x80 ≤ c.toNat ∧ c.toNat ≤ 0xBF ∧ 0x80 ≤ d.toNat ∧ d.toNat ≤ 0xBF ∧
      0xF0 ≤ a.toNat ∧ a.toNat ≤ 0xF4 ∧ (a.toNat = 0xF0 → 0x90 ≤ b.toNat) ∧ (a.toNat = 0xF4 → b.toNat ≤ 0x8F) := by
  simp [isQuad, isTrailing, UInt8.le_iff_toNat_le, ← UInt8.toNat_inj] at quad
  omega

theorem pairGlyph_spec (pair : isPair a b = true) :
    (pairGlyph a b).code = a.toNat % 32 * 64 + b.toNat % 64 ∧ (pairGlyph a b).bytes = [a, b] := by
  have hbounds := pair_bounds pair
  have hvalid : (a.toNat % 32 * 64 + b.toNat % 64).isValidChar := .inl (by omega)
  have hbytes : (pairGlyph a b).bytes = String.utf8EncodeChar (Char.ofNat (a.toNat % 32 * 64 + b.toNat % 64)) := rfl
  refine ⟨toNat_ofNat_char hvalid, ?_⟩
  rw [hbytes, utf8EncodeChar_ofNat hvalid, if_neg (by omega), if_pos (by omega), ofNat_eq_byte (a := a) (by omega),
    ofNat_eq_byte (a := b) (by omega)]

theorem tripleGlyph_spec (triple : isTriple a b c = true) :
    (tripleGlyph a b c).code = (a.toNat % 16 * 64 + b.toNat % 64) * 64 + c.toNat % 64 ∧
      (tripleGlyph a b c).bytes = [a, b, c] := by
  have hbounds := triple_bounds triple
  have hvalid : ((a.toNat % 16 * 64 + b.toNat % 64) * 64 + c.toNat % 64).isValidChar := by
    unfold Nat.isValidChar
    omega
  have hbytes : (tripleGlyph a b c).bytes =
      String.utf8EncodeChar (Char.ofNat ((a.toNat % 16 * 64 + b.toNat % 64) * 64 + c.toNat % 64)) := rfl
  refine ⟨toNat_ofNat_char hvalid, ?_⟩
  rw [hbytes, utf8EncodeChar_ofNat hvalid, if_neg (by omega), if_neg (by omega), if_pos (by omega),
    ofNat_eq_byte (a := a) (by omega), ofNat_eq_byte (a := b) (by omega), ofNat_eq_byte (a := c) (by omega)]

theorem quadGlyph_spec (quad : isQuad a b c d = true) :
    (quadGlyph a b c d).code = ((a.toNat % 8 * 64 + b.toNat % 64) * 64 + c.toNat % 64) * 64 + d.toNat % 64 ∧
      (quadGlyph a b c d).bytes = [a, b, c, d] := by
  have hbounds := quad_bounds quad
  have hvalid : (((a.toNat % 8 * 64 + b.toNat % 64) * 64 + c.toNat % 64) * 64 + d.toNat % 64).isValidChar := by
    unfold Nat.isValidChar
    omega
  have hbytes : (quadGlyph a b c d).bytes = String.utf8EncodeChar
      (Char.ofNat (((a.toNat % 8 * 64 + b.toNat % 64) * 64 + c.toNat % 64) * 64 + d.toNat % 64)) := rfl
  refine ⟨toNat_ofNat_char hvalid, ?_⟩
  rw [hbytes, utf8EncodeChar_ofNat hvalid, if_neg (by omega), if_neg (by omega), if_neg (by omega),
    ofNat_eq_byte (a := a) (by omega), ofNat_eq_byte (a := b) (by omega), ofNat_eq_byte (a := c) (by omega),
    ofNat_eq_byte (a := d) (by omega)]

end Encoding

theorem ofGlyphs_cons (g : Glyph) (gs : List Glyph) : ofGlyphs (g :: gs) = g.bytes ++ ofGlyphs gs :=
  List.flatMap_cons

/-- No byte is lost in glyphs. -/
theorem ofGlyphs_glyphs (text : Bytes) : ofGlyphs (glyphs text) = text := by
  fun_induction glyphs text with
  | case1 => rfl
  | case2 a => rw [ofGlyphs_cons, bytes_loneGlyph]; rfl
  | case3 a b r pair ih => rw [ofGlyphs_cons, (pairGlyph_spec pair).2, ih]; rfl
  | case5 a b pair c r triple ih => rw [ofGlyphs_cons, (tripleGlyph_spec triple).2, ih]; rfl
  | case7 a b pair c triple d r quad ih => rw [ofGlyphs_cons, (quadGlyph_spec quad).2, ih]; rfl
  | case4 a b pair ih | case6 a b pair c triple ih | case8 a b pair c triple d r quad ih =>
    rw [ofGlyphs_cons, bytes_loneGlyph, ih]
    rfl

/-- Characters beyond ASCII that are no white space and no capital of an ASCII letter. -/
def Glyph.Foreign (g : Glyph) : Prop :=
  0x80 ≤ g.code ∧ g.code ≠ 0x130 ∧ g.code ≠ 0x212A ∧ g.isBlank = false

theorem not_isBlankCode {code : Nat} (h : 0x80 ≤ code) (hlast : code % 64 = 42 ∨ code % 64 = 53 ∨ code % 64 = 58) :
    isBlankCode code = false := by
  simp only [isBlankCode, Bool.or_eq_false_iff, Bool.and_eq_false_iff, decide_eq_false_iff_not, beq_eq_false_iff_ne]
  omega

/-- Only three bytes that a word may hold stand inside a longer character. -/
theorem trailing_word : ∀ b : UInt8, 0x80 ≤ b.toNat ∧ b.toNat ≤ 0xBF → isWordByte b = true →
    b.toNat % 64 = 42 ∨ b.toNat % 64 = 53 ∨ b.toNat % 64 = 58 :=
  forall_byte (by decide +kernel)

theorem foreign_stray (b : UInt8) : (Glyph.stray b).Foreign := by
  have hcode : (Glyph.stray b).code = 0xFFFD := rfl
  refine ⟨?_, ?_, ?_, ?_⟩
  · rw [hcode]; decide
  · rw [hcode]; decide
  · rw [hcode]; decide
  · rw [Glyph.isBlank, hcode]; decide

section Word

variable {a b c d : UInt8}

theorem foreign_pair (pair : isPair a b = true) (hb : isWordByte b = true) : (pairGlyph a b).Foreign := by
  have hbounds := pair_bounds pair
  have hcode := (pairGlyph_spec pair).1
  have hlast := trailing_word b (by omega) hb
  rw [Glyph.Foreign, Glyph.isBlank, hcode]
  exact ⟨by omega, by omega, by omega, not_isBlankCode (by omega) (by omega)⟩

theorem foreign_triple (triple : isTriple a b c = true) (hb : isWordByte b = true) (hc : isWordByte c = true) :
    (tripleGlyph a b c).Foreign := by
  have hbounds := triple_bounds triple
  have hcode := (tripleGlyph_spec triple).1
  have hmiddle := trailing_word b (by omega) hb
  have hlast := trailing_word c (by omega) hc
  rw [Glyph.Foreign, Glyph.isBlank, hcode]
  exact ⟨by omega, by omega, by omega, not_isBlankCode (by omega) (by omega)⟩

theorem foreign_quad (quad : isQuad a b c d = true) (hd : isWordByte d = true) : (quadGlyph a b c d).Foreign := by
  have hbounds := quad_bounds quad
  have hcode := (quadGlyph_spec quad).1
  have hlast := trailing_word d (by omega) hd
  rw [Glyph.Foreign, Glyph.isBlank, hcode]
  exact ⟨by omega, by omega, by omega, not_isBlankCode (by omega) (by omega)⟩

end Word

/-- A word consists of ASCII characters and foreign ones. -/
theorem glyphs_word {w : Bytes} (h : ∀ c ∈ w, isWordByte c = true) :
    ∀ g ∈ glyphs w, (∃ c, c < 0x80 ∧ isWordByte c = true ∧ g = loneGlyph c) ∨ g.Foreign := by
  have hlone : ∀ c, isWordByte c = true →
      (∃ c', c' < 0x80 ∧ isWordByte c' = true ∧ loneGlyph c = loneGlyph c') ∨ (loneGlyph c).Foreign := by
    intro c hc
    by_cases hlt : c < 0x80
    · exact .inl ⟨c, hlt, hc, rfl⟩
    · rw [loneGlyph, if_neg hlt]
      exact .inr (foreign_stray c)
  fun_induction glyphs w with
  | case1 => simp
  | case2 a => simpa using hlone a (h a (by simp))
  | case3 a b r pair ih =>
    have hfirst := foreign_pair pair (h b (by simp))
    exact List.forall_mem_cons.mpr ⟨.inr hfirst, ih fun x hx => h x (by simp [hx])⟩
  | case5 a b pair c r triple ih =>
    have hfirst := foreign_triple triple (h b (by simp)) (h c (by simp))
    exact List.forall_mem_cons.mpr ⟨.inr hfirst, ih fun x hx => h x (by simp [hx])⟩
  | case7 a b pair c triple d r quad ih =>
    have hfirst := foreign_quad quad (h d (by simp))
    exact List.forall_mem_cons.mpr ⟨.inr hfirst, ih fun x hx => h x (by simp [hx])⟩
  | case4 a b pair ih | case6 a b pair c triple ih | case8 a b pair c triple d r quad ih =>
    have hfirst := hlone a (h a (by simp))
    exact List.forall_mem_cons.mpr ⟨hfirst, ih fun x hx => h x (List.mem_cons_of_mem a hx)⟩

theorem not_blank_word {w : Bytes} (h : ∀ c ∈ w, isWordByte c = true) : ∀ g ∈ glyphs w, g.isBlank = false := by
  intro g hg
  rcases glyphs_word h g hg with ⟨c, hlt, hc, rfl⟩ | hforeign
  · exact loneGlyph_word c hlt hc
  · exact hforeign.2.2.2

theorem exists_foreign {w : Bytes} (h : ∀ c ∈ w, isWordByte c = true) (hw : isAscii w = false) :
    ∃ g ∈ glyphs w, g.Foreign := by
  by_contra hnone
  have hbytes : ∀ c ∈ ofGlyphs (glyphs w), c < 0x80 := by
    intro c hc
    obtain ⟨g, hg, hmem⟩ := List.mem_flatMap.mp hc
    rcases glyphs_word h g hg with ⟨c', hlt, _, rfl⟩ | hforeign
    · rw [bytes_loneGlyph, List.mem_singleton] at hmem
      rw [hmem]
      exact hlt
    · exact absurd ⟨g, hg, hforeign⟩ hnone
  rw [ofGlyphs_glyphs] at hbytes
  have hascii : isAscii w = true := List.all_eq_true.mpr fun c hc => decide_eq_true (hbytes c hc)
  rw [hascii] at hw
  cases hw

end StackMachine
