import Mathlib.Algebra.Group.Int.Defs
import Mathlib.Algebra.Group.Nat.Defs
import StackMachine.Proofs.Lexing
import StackMachine.Text.IntLiteral
import StackMachine.Text.Number

namespace StackMachine

section AnyBase

variable {base : Nat}

/-- Numbers grow digit by digit. -/
theorem base_induction (hbase : 1 < base) {P : Nat → Prop} (digit : ∀ d < base, P d)
    (append : ∀ n d, 0 < n → d < base → P n → P (base * n + d)) (n : Nat) : P n := by
  induction n using Nat.strongRecOn with
  | _ n ih =>
    by_cases hn : n < base
    · exact digit n hn
    · have hdiv : 0 < n / base := Nat.div_pos (by omega) (by omega)
      have hless : n / base < n := Nat.div_lt_self (by omega) hbase
      rw [← Nat.div_add_mod n base]
      exact append (n / base) (n % base) hdiv (Nat.mod_lt n (by omega)) (ih (n / base) hless)

theorem toDigits_append (hbase : 1 < base) {n d : Nat} (hn : 0 < n) (hd : d < base) :
    Nat.toDigits base (base * n + d) = Nat.toDigits base n ++ [Nat.digitChar d] := by
  rw [← Nat.toDigits_append_toDigits hbase hn hd, Nat.toDigits_of_lt_base hd]

theorem exists_digit_of_mem_toDigits (hbase : 1 < base) {n : Nat} {c : Char} (h : c ∈ Nat.toDigits base n) :
    ∃ d < base, c = Nat.digitChar d := by
  induction n using base_induction hbase with
  | digit d hd =>
    rw [Nat.toDigits_of_lt_base hd] at h
    exact ⟨d, hd, List.mem_singleton.mp h⟩
  | append n d hn hd ih =>
    rw [toDigits_append hbase hn hd, List.mem_append, List.mem_singleton] at h
    rcases h with h | rfl
    · exact ih h
    · exact ⟨d, hd, rfl⟩

theorem readDigits_append {n m : Nat} {xs ys : Bytes} (h : readDigits base n xs = .ok m) :
    readDigits base n (xs ++ ys) = readDigits base m ys := by
  induction xs generalizing n with
  | nil =>
    cases h
    rfl
  | cons c xs ih =>
    rw [List.cons_append, readDigits]
    rw [readDigits] at h
    by_cases hc : c = byte '_'
    · rw [if_pos hc] at h ⊢
      exact ih h
    · rw [if_neg hc] at h ⊢
      cases hd : digitValue? c with
      | none => simp [hd] at h
      | some d =>
        simp only [hd] at h ⊢
        by_cases hbase : base ≤ d
        · simp [hbase] at h
        · by_cases hsize : UInt64.size ≤ n * base + d
          · simp [hbase, hsize] at h
          · rw [if_neg hbase, if_neg hsize] at h ⊢
            exact ih h

theorem readDigits_digit {c : UInt8} {n d : Nat} (hc : c ≠ byte '_') (hvalue : digitValue? c = some d) (hd : d < base)
    (hn : base * n + d < UInt64.size) : readDigits base n [c] = .ok (base * n + d) := by
  have hsize : ¬ UInt64.size ≤ base * n + d := by omega
  simp only [readDigits, if_neg hc, hvalue, if_neg (Nat.not_le.mpr hd), Nat.mul_comm n base, if_neg hsize]

/-- Digits are read back however they are written, if each of them is. -/
theorem readDigits_toDigits (hbase : 1 < base) {write : Char → UInt8}
    (hwrite : ∀ d < base, write (Nat.digitChar d) ≠ byte '_' ∧ digitValue? (write (Nat.digitChar d)) = some d)
    {n : Nat} (hn : n < UInt64.size) : readDigits base 0 ((Nat.toDigits base n).map write) = .ok n := by
  induction n using base_induction hbase with
  | digit d hd =>
    obtain ⟨hunderscore, hvalue⟩ := hwrite d hd
    rw [Nat.toDigits_of_lt_base hd, List.map_singleton, readDigits_digit hunderscore hvalue hd (by simpa using hn)]
    simp
  | append n d hpos hd ih =>
    obtain ⟨hunderscore, hvalue⟩ := hwrite d hd
    have hless : n < UInt64.size := by
      have hmul : 1 * n ≤ base * n := Nat.mul_le_mul_right n (by omega)
      omega
    rw [toDigits_append hbase hpos hd, List.map_append, readDigits_append (ih hless)]
    exact readDigits_digit hunderscore hvalue hd hn

end AnyBase

/-- The byte of a decimal digit. -/
def digitByte (d : Nat) : UInt8 := byte (Nat.digitChar d)

theorem digitByte_spec : ∀ d < 10, isDigitByte (digitByte d) = true ∧ digitValue? (digitByte d) = some d ∧
    digitByte d ≠ byte '_' ∧ (digitByte d = byte '0' ↔ d = 0) ∧ (digitByte d).toNat - 48 = d := by decide

theorem decimalNat_digit {d : Nat} (hd : d < 10) : decimalNat d = [digitByte d] := by
  rw [decimalNat, Nat.toDigits_of_lt_base hd]
  rfl

theorem decimalNat_append {n d : Nat} (hn : 0 < n) (hd : d < 10) :
    decimalNat (10 * n + d) = decimalNat n ++ [digitByte d] := by
  rw [decimalNat, toDigits_append (by decide) hn hd, List.map_append]
  rfl

theorem digit_induction {P : Nat → Prop} (digit : ∀ d < 10, P d) (append : ∀ n d, 0 < n → d < 10 → P n → P (10 * n + d))
    (n : Nat) : P n :=
  base_induction (by decide) digit append n

theorem isDigitByte_of_mem_decimalNat {n : Nat} {c : UInt8} (h : c ∈ decimalNat n) : isDigitByte c = true := by
  obtain ⟨b, hb, rfl⟩ := List.mem_map.mp h
  obtain ⟨d, hd, rfl⟩ := exists_digit_of_mem_toDigits (by decide) hb
  exact (digitByte_spec d hd).1

theorem decimalNat_ne_nil (n : Nat) : decimalNat n ≠ [] := by
  rw [decimalNat, Ne, List.map_eq_nil_iff]
  exact Nat.toDigits_ne_nil

theorem digitsValue_append (digits : Bytes) {c : UInt8} (hc : isDigitByte c = true) :
    digitsValue (digits ++ [c]) = digitsValue digits * 10 + (c.toNat - 48) := by
  simp [digitsValue, hc]

theorem digitsValue_decimalNat (n : Nat) : digitsValue (decimalNat n) = n := by
  induction n using digit_induction with
  | digit d hd =>
    obtain ⟨hdigit, -, -, -, hvalue⟩ := digitByte_spec d hd
    rw [decimalNat_digit hd, ← List.nil_append [digitByte d], digitsValue_append [] hdigit, hvalue]
    exact Nat.zero_add d
  | append n d hn hd ih =>
    obtain ⟨hdigit, -, -, -, hvalue⟩ := digitByte_spec d hd
    rw [decimalNat_append hn hd, digitsValue_append _ hdigit, ih, hvalue]
    omega

theorem digitsValue_zeros (k : Nat) (digits : Bytes) :
    digitsValue (List.replicate k (byte '0') ++ digits) = digitsValue digits := by
  induction k with
  | zero => rfl
  | succ k ih => exact ih

/-- Only zero begins with a zero. -/
theorem exists_decimalNat_cons {n : Nat} (hn : 0 < n) : ∃ c rest, decimalNat n = c :: rest ∧ c ≠ byte '0' := by
  induction n using digit_induction with
  | digit d hd =>
    obtain ⟨-, -, -, hzero, -⟩ := digitByte_spec d hd
    exact ⟨_, _, decimalNat_digit hd, fun h => absurd (hzero.mp h) (by omega)⟩
  | append n d hpos hd ih =>
    obtain ⟨c, rest, hc, hzero⟩ := ih hpos
    exact ⟨c, rest ++ [digitByte d], by rw [decimalNat_append hpos hd, hc]; rfl, hzero⟩

theorem readDigits_decimalNat {n : Nat} (hn : n < UInt64.size) : readDigits 10 0 (decimalNat n) = .ok n := by
  refine readDigits_toDigits (by decide) (fun d hd => ?_) hn
  obtain ⟨-, hvalue, hunderscore, -⟩ := digitByte_spec d hd
  exact ⟨hunderscore, hvalue⟩

theorem readUnsigned_decimalNat {n : Nat} (hn : n < UInt64.size) : readUnsigned (decimalNat n) = .ok n := by
  rcases Nat.eq_zero_or_pos n with rfl | hpos
  · rfl
  · obtain ⟨c, rest, hc, hzero⟩ := exists_decimalNat_cons hpos
    have hbase : literalBase (decimalNat n) = (10, decimalNat n) := by
      rw [hc]
      match rest with
      | [] | [_] | _ :: _ :: _ => simp [literalBase, hzero]
    have hplain : (decimalNat n).contains (byte '_') = false := by
      rw [Bool.eq_false_iff, Ne, List.contains_iff_mem]
      intro hmem
      cases isDigitByte_of_mem_decimalNat hmem
    have hempty : (decimalNat n).isEmpty = false := by rw [hc]; rfl
    simp only [readUnsigned, hempty, hbase, readDigits_decimalNat hn, hplain]
    rfl

theorem splitSign_digit {c : UInt8} (hc : isDigitByte c = true) (rest : Bytes) :
    splitSign (c :: rest) = (false, c :: rest) := by
  have hplus : c ≠ byte '+' := by rintro rfl; cases hc
  have hminus : c ≠ byte '-' := by rintro rfl; cases hc
  simp only [splitSign, if_neg hplus, if_neg hminus]

theorem exists_digit_decimalNat (n : Nat) :
    ∃ c rest, decimalNat n = c :: rest ∧ isDigitByte c = true ∧ ∀ b ∈ rest, isDigitByte b = true := by
  cases hn : decimalNat n with
  | nil => exact absurd hn (decimalNat_ne_nil n)
  | cons c rest =>
    have hdigit : ∀ b ∈ c :: rest, isDigitByte b = true := fun b hb => isDigitByte_of_mem_decimalNat (hn ▸ hb)
    obtain ⟨hc, hrest⟩ := List.forall_mem_cons.mp hdigit
    exact ⟨c, rest, rfl, hc, hrest⟩

theorem splitSign_decimalNat (n : Nat) : splitSign (decimalNat n) = (false, decimalNat n) := by
  obtain ⟨c, rest, hn, hc, -⟩ := exists_digit_decimalNat n
  rw [hn, splitSign_digit hc]

section Signed

/-- The sign before the magnitude of a number. -/
def signText (v : Int64) : Bytes := if v < 0 then [byte '-'] else []

variable {v : Int64} {c : UInt8} {rest : Bytes}

theorem natAbs_of_neg (h : v < 0) : v.toInt = -(v.toInt.natAbs : Int) ∧ v.toInt.natAbs ≤ wordBound := by
  have hbound : wordBound = 9223372036854775808 := rfl
  have hlow := v.le_toInt
  rw [Int64.lt_iff_toInt_lt, Int64.toInt_zero] at h
  omega

theorem natAbs_of_nonneg (h : ¬ v < 0) : v.toInt = (v.toInt.natAbs : Int) ∧ v.toInt.natAbs < wordBound := by
  have hbound : wordBound = 9223372036854775808 := rfl
  have hhigh := v.toInt_lt
  rw [Int64.lt_iff_toInt_lt, Int64.toInt_zero] at h
  omega

theorem natAbs_lt_size (v : Int64) : v.toInt.natAbs < UInt64.size := by
  have hsize : UInt64.size = 18446744073709551616 := rfl
  have hlow := v.le_toInt
  have hhigh := v.toInt_lt
  omega

theorem toNat_toUInt64 {v : Int64} (h : 0 ≤ v) : v.toUInt64.toNat = v.toInt.toNat := by
  rw [Int64.toNat_toInt, ← Int64.toNat_toBitVec_of_le h]
  rfl

/-- The size of a word is its absolute value: counted from one above, it fits in a word, and the last one is added
without its sign. -/
theorem toNat_magnitude (v : Int64) : (magnitude v).toNat = v.toInt.natAbs := by
  have hlow := v.le_toInt
  have hhigh := v.toInt_lt
  unfold magnitude
  split
  next hneg =>
    rw [Int64.lt_iff_toInt_lt, Int64.toInt_zero] at hneg
    have hsucc : (v + 1).toInt = v.toInt + 1 := by
      rw [Int64.toInt_add, show (1 : Int64).toInt = 1 from rfl]
      exact Int.bmod_eq_of_le (by omega) (by omega)
    have hnegated : (-(v + 1)).toInt = -(v.toInt + 1) := by
      rw [Int64.toInt_neg, hsucc]
      exact Int.bmod_eq_of_le (by omega) (by omega)
    have hnonneg : 0 ≤ -(v + 1) := by
      rw [Int64.le_iff_toInt_le, hnegated, Int64.toInt_zero]
      omega
    rw [UInt64.toNat_add, toNat_toUInt64 hnonneg, hnegated, show (1 : UInt64).toNat = 1 from rfl]
    omega
  next hnonneg =>
    have hle : 0 ≤ v := Int64.not_lt.mp hnonneg
    rw [toNat_toUInt64 hle]
    rw [Int64.le_iff_toInt_le, Int64.toInt_zero] at hle
    omega
/-- A sign and a magnitude are read as the number that they are the sign and magnitude of. -/
theorem int?_signed (hc : isDigitByte c = true) (h : readUnsigned (c :: rest) = .ok v.toInt.natAbs) :
    int? (signText v ++ c :: rest) = some v := by
  unfold int? readInt signText
  by_cases hv : v < 0
  · obtain ⟨hvalue, hbound⟩ := natAbs_of_neg hv
    have hsign : splitSign ([byte '-'] ++ c :: rest) = (true, c :: rest) := rfl
    have hword : Int64.ofInt (-(v.toInt.natAbs : Int)) = v := by rw [← hvalue, Int64.ofInt_toInt]
    rw [if_pos hv, hsign]
    simp only [h, if_true, if_neg (Nat.not_lt.mpr hbound), hword]
    rfl
  · obtain ⟨hvalue, hbound⟩ := natAbs_of_nonneg hv
    have hword : Int64.ofInt (v.toInt.natAbs : Int) = v := by rw [← hvalue, Int64.ofInt_toInt]
    rw [if_neg hv, List.nil_append, splitSign_digit hc]
    simp only [h, if_neg (Nat.not_le.mpr hbound), hword]
    rfl

theorem isNumber_signed (hc : isDigitByte c = true) (hrest : ∀ b ∈ rest, isWordByte b = true) (v : Int64) :
    IsNumber (signText v ++ c :: rest) := by
  unfold signText
  split
  · refine ⟨?_, List.forall_mem_cons.mpr ⟨isWordByte_of_digit c hc, hrest⟩⟩
    simp [startsNumber, isSign, hc]
  · exact ⟨by simp [startsNumber, hc], hrest⟩

theorem value_eq (v : Int64) : value v = signText v ++ decimalNat v.toInt.natAbs := by
  unfold value signText
  by_cases hv : v < 0
  · obtain ⟨hvalue, -⟩ := natAbs_of_neg hv
    have hpos : v.toInt.natAbs ≠ 0 := by
      rw [Int64.lt_iff_toInt_lt, Int64.toInt_zero] at hv
      omega
    obtain ⟨n, hn⟩ := Nat.exists_eq_succ_of_ne_zero hpos
    rw [if_pos hv, hvalue, Int.natAbs_neg, Int.natAbs_natCast, hn]
    rfl
  · obtain ⟨hvalue, -⟩ := natAbs_of_nonneg hv
    rw [if_neg hv, hvalue, Int.natAbs_natCast]
    rfl

/-- A number is read back from its text. -/
theorem int?_value (v : Int64) : int? (value v) = some v := by
  obtain ⟨c, rest, hn, hc, -⟩ := exists_digit_decimalNat v.toInt.natAbs
  rw [value_eq, hn]
  exact int?_signed hc (hn ▸ readUnsigned_decimalNat (natAbs_lt_size v))

theorem isNumber_value (v : Int64) : IsNumber (value v) := by
  obtain ⟨c, rest, hn, hc, hrest⟩ := exists_digit_decimalNat v.toInt.natAbs
  rw [value_eq, hn]
  exact isNumber_signed hc (fun b hb => isWordByte_of_digit b (hrest b hb)) v

end Signed

section Hexadecimal

def isUpperHexByte (c : UInt8) : Bool := isDigitByte c || (byte 'A' ≤ c && c ≤ byte 'F')

def hexDigit (d : Nat) : UInt8 := upperByte (byte (Nat.digitChar d))

theorem hexDigit_spec : ∀ d < 16, hexDigit d ≠ byte '_' ∧ digitValue? (hexDigit d) = some d ∧
    isHexByte (hexDigit d) = true ∧ isUpperHexByte (hexDigit d) = true := by decide +kernel

theorem isWordByte_of_upperHex {c : UInt8} (h : isUpperHexByte c = true) : isWordByte c = true := by
  rw [isUpperHexByte, Bool.or_eq_true, Bool.and_eq_true, decide_eq_true_iff, decide_eq_true_iff,
    UInt8.le_iff_toNat_le, UInt8.le_iff_toNat_le, toNat_byte, toNat_byte] at h
  rw [isWordByte_iff, startsWord_iff]
  rcases h with hdigit | ⟨hleast, hgreatest⟩
  · exact .inr hdigit
  · exact .inl (.inl ⟨hleast, by have : 'F'.toNat % 256 = 70 := rfl; omega⟩)

theorem upperHex_eq (n : Nat) : upperHex n = (Nat.toDigits 16 n).map fun c => upperByte (byte c) := by
  rw [upperHex, lowerHex, List.map_map]
  rfl

variable (width n : Nat)

theorem isUpperHexByte_of_mem_paddedHex {c : UInt8} (h : c ∈ paddedHex width n) : isUpperHexByte c = true := by
  rw [paddedHex, paddedLeft, List.mem_append, List.mem_replicate] at h
  rcases h with ⟨-, rfl⟩ | hdigit
  · rfl
  · rw [upperHex_eq] at hdigit
    obtain ⟨b, hb, rfl⟩ := List.mem_map.mp hdigit
    obtain ⟨d, hd, rfl⟩ := exists_digit_of_mem_toDigits (by decide) hb
    exact (hexDigit_spec d hd).2.2.2

theorem le_length_paddedHex : width ≤ (paddedHex width n).length := by
  rw [paddedHex, paddedLeft, List.length_append, List.length_replicate]
  omega

theorem paddedHex_ne_nil : paddedHex width n ≠ [] := by
  intro hnil
  have hdigits : upperHex n = [] := (List.append_eq_nil_iff.mp hnil).2
  rw [upperHex_eq, List.map_eq_nil_iff] at hdigits
  exact Nat.toDigits_ne_nil hdigits

theorem readDigits_zeros (base k : Nat) (hbase : 0 < base) :
    readDigits base 0 (List.replicate k (byte '0')) = .ok 0 := by
  induction k with
  | zero => rfl
  | succ k ih =>
    have hzero : readDigits base 0 [byte '0'] = .ok (base * 0 + 0) :=
      readDigits_digit (by decide) rfl hbase (by rw [Nat.mul_zero]; decide)
    rw [List.replicate_succ, ← List.singleton_append, readDigits_append hzero]
    exact ih

theorem readDigits_paddedHex {n : Nat} (hn : n < UInt64.size) : readDigits 16 0 (paddedHex width n) = .ok n := by
  rw [paddedHex, paddedLeft, readDigits_append (readDigits_zeros 16 _ (by decide)), upperHex_eq]
  refine readDigits_toDigits (by decide) (fun d hd => ?_) hn
  obtain ⟨hunderscore, hvalue, -, -⟩ := hexDigit_spec d hd
  exact ⟨hunderscore, hvalue⟩

/-- Two digits hold a byte. -/
theorem paddedHex_two {n : Nat} (hn : n < 256) : paddedHex 2 n = [hexDigit (n / 16), hexDigit (n % 16)] := by
  rw [paddedHex, upperHex_eq]
  by_cases hsmall : n < 16
  · rw [Nat.toDigits_of_lt_base hsmall, Nat.div_eq_of_lt hsmall, Nat.mod_eq_of_lt hsmall]
    rfl
  · have hdigits : Nat.toDigits 16 n = [Nat.digitChar (n / 16), Nat.digitChar (n % 16)] := by
      conv_lhs => rw [← Nat.div_add_mod n 16]
      rw [toDigits_append (by omega) (by omega) (by omega), Nat.toDigits_of_lt_base (by omega)]
      rfl
    rw [hdigits]
    rfl

/-- The mark of the base makes the digits be read in base sixteen. -/
theorem readUnsigned_hex {n : Nat} (hn : n < UInt64.size) :
    readUnsigned (byte '0' :: byte 'x' :: paddedHex width n) = .ok n := by
  have hbase : literalBase (byte '0' :: byte 'x' :: paddedHex width n) = (16, paddedHex width n) := by
    cases hdigits : paddedHex width n with
    | nil => exact absurd hdigits (paddedHex_ne_nil width n)
    | cons c rest => rfl
  have hplain : (paddedHex width n).contains (byte '_') = false := by
    rw [Bool.eq_false_iff, Ne, List.contains_iff_mem]
    intro hmem
    cases isUpperHexByte_of_mem_paddedHex width n hmem
  simp only [readUnsigned, List.isEmpty_cons, hbase, readDigits_paddedHex width hn, hplain]
  rfl

end Hexadecimal

end StackMachine
