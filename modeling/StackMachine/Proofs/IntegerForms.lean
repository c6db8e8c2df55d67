import Mathlib.Logic.Function.Basic
import StackMachine.Proofs.CanonicalText

namespace StackMachine

theorem hexValue_eq (v : Int64) :
    hexValue v = signText v ++ byte '0' :: byte 'x' :: paddedHex 4 v.toInt.natAbs := by
  have hmark : utf8 "0x" = [byte '0', byte 'x'] := rfl
  rw [hexValue, hmark, signText, toNat_magnitude, List.append_assoc]
  rfl

theorem int?_hexValue (v : Int64) : int? (hexValue v) = some v := by
  rw [hexValue_eq]
  exact int?_signed rfl (readUnsigned_hex 4 (natAbs_lt_size v))

theorem isNumber_hexValue (v : Int64) : IsNumber (hexValue v) := by
  rw [hexValue_eq]
  refine isNumber_signed rfl (List.forall_mem_cons.mpr ⟨rfl, fun b hb => ?_⟩) v
  exact isWordByte_of_upperHex (isUpperHexByte_of_mem_paddedHex 4 _ hb)

/-- The texts that an integer is shown by. -/
def integerForms (v : Int64) : List Bytes := [(Operand.imm v).text, hexValue v]

section Forms

variable {v : Int64} {text : Bytes}

theorem isNumber_of_form (h : text ∈ integerForms v) : IsNumber text := by
  rcases List.mem_pair.mp h with rfl | rfl
  · exact isNumber_value v
  · exact isNumber_hexValue v

theorem int?_of_form (h : text ∈ integerForms v) : int? text = some v := by
  rcases List.mem_pair.mp h with rfl | rfl
  · exact int?_value v
  · exact int?_hexValue v

/-- The bytes that numbers are written with. -/
def isFormByte (c : UInt8) : Bool := isUpperHexByte c || c == byte '-' || c == byte 'x'

theorem isFormByte_spec : ∀ c : UInt8, (isDigitByte c = true → isFormByte c = true) ∧
    (isFormByte c = true → c < 0x80 ∧ (loneGlyph c).isBlank = false) :=
  forall_byte (by decide +kernel)

theorem isFormByte_of_mem_signText {c : UInt8} (h : c ∈ signText v) : isFormByte c = true := by
  unfold signText at h
  split at h
  next => rw [List.mem_singleton.mp h]; rfl
  next => cases h

theorem isFormByte_of_form (h : text ∈ integerForms v) : ∀ c ∈ text, isFormByte c = true := by
  rcases List.mem_pair.mp h with rfl | rfl
  · have htext : (Operand.imm v).text = signText v ++ decimalNat v.toInt.natAbs := value_eq v
    rw [htext]
    refine List.forall_mem_append.mpr ⟨fun c => isFormByte_of_mem_signText, fun c hc => ?_⟩
    exact (isFormByte_spec c).1 (isDigitByte_of_mem_decimalNat hc)
  · rw [hexValue_eq]
    refine List.forall_mem_append.mpr ⟨fun c => isFormByte_of_mem_signText, ?_⟩
    refine List.forall_mem_cons.mpr ⟨rfl, List.forall_mem_cons.mpr ⟨rfl, fun c hc => ?_⟩⟩
    rw [isFormByte, isUpperHexByte_of_mem_paddedHex 4 _ hc]
    rfl

theorem trimmed_form (h : text ∈ integerForms v) : trimmed text = text :=
  trimmed_ascii fun c hc => (isFormByte_spec c).2 (isFormByte_of_form h c hc)

theorem ofToken_form (h : text ∈ integerForms v) : Operand.ofToken text = .imm v := by
  rw [Operand.ofToken, trimmed_form h, int?_of_form h]

theorem tokens_form (h : text ∈ integerForms v) : tokens text = [⟨.int, text, 1⟩, ⟨.eof, [], 1⟩] := by
  have hend : Closes [] := rfl
  have hlex := tokensFrom_number (isNumber_of_form h) hend 1
  rw [List.append_nil, tokensFrom] at hlex
  exact hlex

theorem proper_form (h : text ∈ integerForms v) {separator : Bytes} (hne : separator ≠ [])
    (hseparator : ∀ c ∈ separator, isGapByte c = true ∨ c = byte ',') :
    (⟨separator, text, .imm v⟩ : Argument).Proper :=
  ⟨hne, hseparator, isNumber_of_form h, congrArg (Option.map Operand.imm) (int?_of_form h)⟩

end Forms

/-- Integers survive their texts. Both forms are one token, are the integer by themselves, and are it at any place among
the operands of a statement. The hexadecimal form tells integers apart; after the sign and the mark of the base it has at
least four digits, in upper case. -/
theorem integer_forms_round_trip :
    (∀ (v : Int64) (text : Bytes), text ∈ [(Operand.imm v).text, hexValue v] →
      tokens text = [⟨.int, text, 1⟩, ⟨.eof, [], 1⟩] ∧ Operand.ofToken text = .imm v ∧
      ∀ (word separator : Bytes) (before after : List Argument), IsWord word → separator ≠ [] →
        (∀ c ∈ separator, isGapByte c = true ∨ c = byte ',') → (∀ a ∈ before ++ after, a.Proper) →
        parse (word ++ Argument.texts before ++ separator ++ text ++ Argument.texts after) =
          .ok [⟨upper word, before.map Argument.operand ++ .imm v :: after.map Argument.operand, 1⟩]) ∧
    Function.Injective hexValue ∧
    ∀ v : Int64, ∃ digits : Bytes, hexValue v = (if v < 0 then utf8 "-0x" else utf8 "0x") ++ digits ∧
      4 ≤ digits.length ∧ ∀ c ∈ digits, isDigitByte c = true ∨ byte 'A' ≤ c ∧ c ≤ byte 'F' := by
  refine ⟨fun v text h => ⟨tokens_form h, ofToken_form h, ?_⟩, fun v w heq => ?_, fun v => ?_⟩
  · intro word separator before after hword hne hseparator hothers
    obtain ⟨hbefore, hafter⟩ := List.forall_mem_append.mp hothers
    have hargs : ∀ a ∈ before ++ ⟨separator, text, .imm v⟩ :: after, a.Proper :=
      List.forall_mem_append.mpr ⟨hbefore, List.forall_mem_cons.mpr ⟨proper_form h hne hseparator, hafter⟩⟩
    have hparse := parse_arguments hword hargs
    simpa [Argument.texts] using hparse
  · have hread := int?_hexValue v
    rw [heq, int?_hexValue w] at hread
    exact (Option.some.inj hread).symm
  · refine ⟨paddedHex 4 v.toInt.natAbs, ?_, le_length_paddedHex 4 _, fun c hc => ?_⟩
    · have hminus : utf8 "-0x" = [byte '-', byte '0', byte 'x'] := rfl
      have hplus : utf8 "0x" = [byte '0', byte 'x'] := rfl
      rw [hexValue_eq, signText, hminus, hplus]
      split <;> rfl
    · have hupper := isUpperHexByte_of_mem_paddedHex 4 _ hc
      simpa [isUpperHexByte] using hupper

/-- The least integer, whose magnitude is no 64-bit integer, after a comma and before another operand. -/
theorem integer_forms_round_trip_least :
    hexValue Int64.minValue = utf8 "-0x8000000000000000" ∧
      tokens (utf8 "-0x8000000000000000") = [⟨.int, utf8 "-0x8000000000000000", 1⟩, ⟨.eof, [], 1⟩] ∧
      Operand.ofToken (utf8 "-0x8000000000000000") = .imm Int64.minValue ∧
      parse (utf8 "if A" ++ utf8 ", " ++ utf8 "-0x8000000000000000" ++ utf8 " 0x0007") =
        .ok [⟨utf8 "IF", [.reg (utf8 "A"), .imm Int64.minValue, .imm 7], 1⟩] := by
  obtain ⟨hforms, -, -⟩ := integer_forms_round_trip
  have htext : hexValue Int64.minValue = utf8 "-0x8000000000000000" := by decide +kernel
  have hform : utf8 "-0x8000000000000000" ∈ [(Operand.imm Int64.minValue).text, hexValue Int64.minValue] := by
    rw [htext]
    exact List.mem_cons_of_mem _ List.mem_cons_self
  obtain ⟨htokens, hoperand, hstatement⟩ := hforms Int64.minValue _ hform
  have hblank : ∀ c ∈ utf8 " ", isGapByte c = true ∨ c = byte ',' := List.forall_mem_singleton.mpr (.inl rfl)
  have hcomma : ∀ c ∈ utf8 ", ", isGapByte c = true ∨ c = byte ',' := List.forall_mem_cons.mpr ⟨.inr rfl, hblank⟩
  have hname : (⟨utf8 " ", utf8 "A", .reg (utf8 "A")⟩ : Argument).Proper :=
    ⟨by decide, hblank, (by decide : IsWord (utf8 "A")), rfl⟩
  have hseven : (⟨utf8 " ", utf8 "0x0007", .imm 7⟩ : Argument).Proper :=
    ⟨by decide, hblank, (by decide : IsNumber (utf8 "0x0007")), rfl⟩
  have hparse := hstatement (utf8 "if") (utf8 ", ") [⟨utf8 " ", utf8 "A", .reg (utf8 "A")⟩]
    [⟨utf8 " ", utf8 "0x0007", .imm 7⟩] (by decide) (by decide) hcomma
    (List.forall_mem_cons.mpr ⟨hname, List.forall_mem_singleton.mpr hseven⟩)
  refine ⟨htext, htokens, hoperand, ?_⟩
  have hline : utf8 "if A" = utf8 "if" ++ Argument.texts [⟨utf8 " ", utf8 "A", .reg (utf8 "A")⟩] := rfl
  have hrest : utf8 " 0x0007" = Argument.texts [⟨utf8 " ", utf8 "0x0007", .imm 7⟩] := rfl
  have hword : upper (utf8 "if") = utf8 "IF" := rfl
  rw [hline, hrest, hparse, hword]
  rfl

end StackMachine
