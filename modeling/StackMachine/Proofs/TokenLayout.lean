import StackMachine.Proofs.Lexing

namespace StackMachine

/-- A token with the bytes that it was read from and the gap before them. -/
structure Piece where
  gap : Bytes
  bytes : Bytes
  token : Token

/-- The text that pieces were read from. -/
def sourceOf (pieces : List Piece) : Bytes := pieces.flatMap fun p => p.gap ++ p.bytes

/-- The piece stands between two texts, the first of which begins in a line. -/
structure Piece.Placed (line : Nat) (before : Bytes) (p : Piece) (after : Bytes) : Prop where
  skipped : Skipped p.gap (p.bytes ++ after)
  read : p.token.ReadFrom p.bytes after
  line_eq : p.token.line = line + (before ++ p.gap).count newline

/-- The pieces of a text from a line on, and what is left after the last one. -/
structure LaidOut (line : Nat) (text : Bytes) (pieces : List Piece) (rest : Bytes) : Prop where
  source : text = sourceOf pieces ++ rest
  skipped : Skipped rest []
  placed : ∀ before p after, pieces = before ++ p :: after → p.Placed line (sourceOf before) (sourceOf after ++ rest)

theorem Piece.Placed.below {p : Piece} {line : Nat} {bytes before after : Bytes}
    (h : p.Placed (line + bytes.count newline) before after) : p.Placed line (bytes ++ before) after := by
  refine ⟨h.skipped, h.read, ?_⟩
  rw [h.line_eq, List.append_assoc, List.count_append, List.count_append, List.count_append]
  omega

theorem LaidOut.cons {line : Nat} {gap bytes after rest : Bytes} {t : Token} {pieces : List Piece}
    (h : LaidOut (line + bytes.count newline) after pieces rest) (hskipped : Skipped gap (bytes ++ after))
    (hread : t.ReadFrom bytes after) (hplace : t.line = line) :
    LaidOut line (gap ++ (bytes ++ after)) (⟨gap, bytes, t⟩ :: pieces) rest := by
  have hgap := hskipped.count_newline
  have hsource := h.source
  refine ⟨?_, h.skipped, ?_⟩
  · rw [hsource]
    simp [sourceOf]
  · intro before p later heq
    cases before with
    | nil =>
      obtain ⟨rfl, rfl⟩ := List.cons.inj heq
      rw [← hsource]
      refine ⟨hskipped, hread, ?_⟩
      have hcount : (sourceOf [] ++ gap).count newline = 0 := hgap
      rw [hcount, hplace, Nat.add_zero]
    | cons q before =>
      obtain ⟨rfl, rfl⟩ := List.cons.inj heq
      have hplaced := (h.placed before p later rfl).below
      refine ⟨hplaced.skipped, hplaced.read, ?_⟩
      have hcount : (sourceOf (⟨gap, bytes, t⟩ :: before) ++ p.gap).count newline =
          (bytes ++ sourceOf before ++ p.gap).count newline := by
        simp [sourceOf, hgap]
      rw [hcount, hplaced.line_eq]

theorem Lexes.exists_laidOut {line : Nat} {text : Bytes} {ts : List Token} (h : Lexes line text ts) :
    ∃ pieces rest, LaidOut line text pieces rest ∧
      ts = pieces.map Piece.token ++ [⟨.eof, [], line + text.count newline⟩] := by
  induction h with
  | @ended line gap hskipped =>
    refine ⟨[], gap, ⟨rfl, hskipped, by simp⟩, ?_⟩
    rw [hskipped.count_newline]
    rfl
  | @next line gap bytes after t ts hskipped hread hplace hrest ih =>
    obtain ⟨pieces, rest, hlaid, rfl⟩ := ih
    refine ⟨_, rest, hlaid.cons hskipped hread hplace, ?_⟩
    have hcount : line + (gap ++ (bytes ++ after)).count newline =
        line + bytes.count newline + after.count newline := by
      rw [List.count_append, List.count_append, hskipped.count_newline]
      omega
    rw [hcount]
    rfl

theorem Lexes.countP_newline {line : Nat} {text : Bytes} {ts : List Token} (h : Lexes line text ts) :
    ts.countP (·.kind = .newline) = text.count newline := by
  induction h with
  | ended hskipped =>
    rw [hskipped.count_newline]
    rfl
  | next hskipped hread hplace hrest ih =>
    rw [List.countP_cons, ih, List.count_append, List.count_append, hskipped.count_newline, hread.count_newline]
    simp only [decide_eq_true_eq]
    omega

theorem Lexes.length_le {line : Nat} {text : Bytes} {ts : List Token} (h : Lexes line text ts) :
    ts.length ≤ text.length + 1 := by
  induction h with
  | ended => simp
  | next hskipped hread hplace hrest ih =>
    have hpos := hread.length_pos
    simp only [List.length_cons, List.length_append]
    omega

/-- Lexing loses nothing. The tokens of a text but the last stand in it one after the other, with blanks and comments
between them and at the end; the last token, and no other, is the end of the text. The line of a token is told by the
line feeds before it, and each line feed is a token. Every token takes a byte at least, so there are no more of them than
bytes. -/
theorem lexing_loses_nothing (source : Bytes) :
    ∃ (pieces : List Piece) (rest : Bytes),
      tokens source = pieces.map Piece.token ++ [⟨.eof, [], 1 + source.count newline⟩] ∧
      (∀ p ∈ pieces, p.token.kind ≠ .eof) ∧
      source = sourceOf pieces ++ rest ∧ Skipped rest [] ∧
      (∀ before p after, pieces = before ++ p :: after →
        Skipped p.gap (p.bytes ++ (sourceOf after ++ rest)) ∧
        p.token.ReadFrom p.bytes (sourceOf after ++ rest) ∧
        p.token.line = 1 + (sourceOf before ++ p.gap).count newline) ∧
      (tokens source).countP (·.kind = .newline) = source.count newline ∧
      (tokens source).length ≤ source.length + 1 := by
  have hlexes := lexes_tokensFrom 1 source
  obtain ⟨pieces, rest, hlaid, htokens⟩ := hlexes.exists_laidOut
  refine ⟨pieces, rest, htokens, ?_, hlaid.source, hlaid.skipped, ?_, hlexes.countP_newline, hlexes.length_le⟩
  · intro p hp
    obtain ⟨before, after, hsplit⟩ := List.append_of_mem hp
    exact (hlaid.placed before p after hsplit).read.kind_ne_eof
  · intro before p after hsplit
    obtain ⟨hskipped, hread, hline⟩ := hlaid.placed before p after hsplit
    exact ⟨hskipped, hread, hline⟩

/-- Tokens without anything between them, a comment before a line feed, and a byte beyond ASCII that is no letter. -/
theorem lexing_loses_nothing_unspaced :
    ∃ (a b c d : Piece) (rest : Bytes),
      utf8 "A-1#,\n" ++ [0xD7] = sourceOf [a, b, c, d] ++ rest ∧ Skipped rest [] ∧
      [a.token, b.token] = [⟨.ident, utf8 "A", 1⟩, ⟨.int, utf8 "-1", 1⟩] ∧
      Skipped c.gap (c.bytes ++ (d.gap ++ d.bytes ++ rest)) ∧
      d.token = ⟨.illegal, utf8 "×", 2⟩ ∧ d.token.ReadFrom d.bytes rest := by
  obtain ⟨pieces, rest, htokens, -, hsource, hrest, hplaced, -⟩ := lexing_loses_nothing (utf8 "A-1#,\n" ++ [0xD7])
  have hvalue : tokens (utf8 "A-1#,\n" ++ [0xD7]) =
      [⟨.ident, utf8 "A", 1⟩, ⟨.int, utf8 "-1", 1⟩, ⟨.newline, [newline], 1⟩, ⟨.illegal, utf8 "×", 2⟩] ++
        [⟨.eof, [], 1 + (utf8 "A-1#,\n" ++ [0xD7]).count newline⟩] := by decide +kernel
  have hmap := List.append_cancel_right (hvalue.symm.trans htokens)
  obtain ⟨a, _, rfl, ha, hmap⟩ := List.map_eq_cons_iff.mp hmap.symm
  obtain ⟨b, _, rfl, hb, hmap⟩ := List.map_eq_cons_iff.mp hmap
  obtain ⟨c, _, rfl, -, hmap⟩ := List.map_eq_cons_iff.mp hmap
  obtain ⟨d, _, rfl, hd, hmap⟩ := List.map_eq_cons_iff.mp hmap
  obtain rfl := List.map_eq_nil_iff.mp hmap
  obtain ⟨hgap, -, -⟩ := hplaced [a, b] c [d] rfl
  obtain ⟨-, hread, -⟩ := hplaced [a, b, c] d [] rfl
  refine ⟨a, b, c, d, rest, hsource, hrest, by rw [ha, hb], ?_, hd, hread⟩
  simpa [sourceOf] using hgap

end StackMachine
