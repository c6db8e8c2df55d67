import StackMachine.Proofs.CsvRoundTrip
import StackMachine.Proofs.NumberText

namespace StackMachine

def truthWords : List Bytes := [utf8 "true", utf8 "TRUE", utf8 "True", utf8 "false", utf8 "FALSE", utf8 "False"]

/-- Digits, after a sign or none. -/
def isIntegerText (text : Bytes) : Bool := !(splitSign text).2.isEmpty && (splitSign text).2.all isDigitByte

def isDecimalByte (c : UInt8) : Bool := isDigitByte c || (utf8 "_.+-eE").contains c

def isHexadecimalByte (c : UInt8) : Bool := isDecimalByte c || (utf8 "abcdfABCDFxXpP").contains c

/-- The look of a floating-point number without its sign. It is decimal, or hexadecimal with an exponent. -/
def isNumeral (text : Bytes) : Bool :=
  text.head?.any (fun c => isDigitByte c || c == byte '.') &&
    (text.all isDecimalByte || text.all isHexadecimalByte && text.any fun c => c == byte 'p' || c == byte 'P')

/-- The look of a floating-point number: one of three words in any case, or a numeral, after a sign or none. -/
def isFloatText (text : Bytes) : Bool :=
  [utf8 "inf", utf8 "infinity", utf8 "nan"].contains ((splitSign text).2.map lowerByte) ||
    isNumeral (splitSign text).2

/-- How texts are read as numbers. A double that is no number is a missing value. -/
structure NumberReader where
  int? : Bytes → Option Int64
  float? : Bytes → Option (Option Binary64)

/-- The column that a reader of numbers makes of texts. -/
def NumberReader.infer (r : NumberReader) : List (Option Bytes) → Series := .inferBy r.int? r.float?

/-- Integers are read from what is written for them and from truth values, doubles from numerals and words. -/
structure NumberReader.Standard (r : NumberReader) : Prop where
  int_value : ∀ v, r.int? (value v) = some v
  int_truth : r.int? (utf8 "TRUE") = some 1 ∧ r.int? (utf8 "FALSE") = some 0
  int_only : ∀ text, (r.int? text).isSome → text ∈ truthWords ∨ isIntegerText text = true
  float_infinite : ∀ word ∈ [utf8 "INF", utf8 "INFINITY"], r.float? word = some (some (.infinite false))
  float_undefined : r.float? (utf8 "NAN") = some none
  float_only : ∀ text, (r.float? text).isSome → isFloatText text = true

/-- A text that is taken for neither a missing value nor a number. -/
structure Plain (text : Bytes) : Prop where
  present : text ≠ missingText
  notTruth : text ∉ truthWords
  notInt : isIntegerText text = false
  notFloat : isFloatText text = false

instance (text : Bytes) : Decidable (Plain text) :=
  decidable_of_iff (text ≠ missingText ∧ text ∉ truthWords ∧ isIntegerText text = false ∧ isFloatText text = false)
    ⟨fun h => ⟨h.1, h.2.1, h.2.2.1, h.2.2.2⟩, fun h => ⟨h.1, h.2, h.3, h.4⟩⟩

section Entries

variable {α : Type} {read : Bytes → Option (Option α)} {values : List (Option Bytes)}

theorem readEntries_cons (read : Bytes → Option (Option α)) (v : Option Bytes) (values : List (Option Bytes)) :
    readEntries read (v :: values) =
      (v.elim (some none) read).bind fun first => (readEntries read values).bind fun rest => some (first :: rest) := by
  cases v with
  | none => simp [readEntries]
  | some text => simp [readEntries]

theorem readEntries_eq_none {text : Bytes} (hmem : some text ∈ values) (hread : read text = none) :
    readEntries read values = none := by
  induction values with
  | nil => cases hmem
  | cons v values ih =>
    rw [readEntries_cons]
    rcases List.mem_cons.mp hmem with rfl | hlater
    · simp [hread]
    · simp [ih hlater]

end Entries

theorem mem_value {v : Int64} {c : UInt8} (h : c ∈ value v) : isDigitByte c = true ∨ c = byte '-' := by
  unfold value at h
  cases hv : v.toInt with
  | ofNat n =>
    rw [hv] at h
    exact .inl (isDigitByte_of_mem_decimalNat h)
  | negSucc n =>
    rw [hv] at h
    rcases List.mem_cons.mp h with rfl | hdigit
    · exact .inr rfl
    · exact .inl (isDigitByte_of_mem_decimalNat hdigit)

theorem value_ne {v : Int64} {text : Bytes} (h : text.all (fun c => isDigitByte c || c == byte '-') = false) :
    value v ≠ text := by
  rintro rfl
  have hall : (value v).all (fun c => isDigitByte c || c == byte '-') = true := by
    rw [List.all_eq_true]
    intro c hc
    rcases mem_value hc with hdigit | rfl
    · rw [hdigit, Bool.true_or]
    · rw [beq_self_eq_true, Bool.or_true]
  rw [hall] at h
  cases h

namespace NumberReader.Standard

variable {r : NumberReader} (hr : r.Standard)

include hr

theorem int?_eq_none {text : Bytes} (htruth : text ∉ truthWords) (hint : isIntegerText text = false) :
    r.int? text = none := by
  cases h : r.int? text with
  | none => rfl
  | some v =>
    rcases hr.int_only text (by rw [h]; rfl) with hword | hdigits
    · exact absurd hword htruth
    · rw [hdigits] at hint
      cases hint

theorem float?_eq_none {text : Bytes} (hfloat : isFloatText text = false) : r.float? text = none := by
  cases h : r.float? text with
  | none => rfl
  | some v =>
    rw [hr.float_only text (by rw [h]; rfl)] at hfloat
    cases hfloat

theorem readEntries_values (values : List (Option Int64)) :
    readEntries (fun text => (r.int? text).map some) (values.map (Option.map value)) = some values := by
  induction values with
  | nil => rfl
  | cons v values ih =>
    rw [List.map_cons, readEntries_cons, ih]
    cases v with
    | none => rfl
    | some v => simp [hr.int_value]

/-- A column of integers is read back with its missing values. -/
theorem reread_ints (values : List (Option Int64)) : (Series.ints values).reread r.infer = .ints values := by
  have hshown : ((Series.ints values).entries.map Entry.shown).map (fun t => if t = missingText then none else some t) =
      values.map (Option.map value) := by
    rw [Series.entries, List.map_map, List.map_map]
    apply List.map_congr_left
    intro v _
    cases v with
    | none => rfl
    | some v =>
      have hne : value v ≠ missingText := value_ne rfl
      exact if_neg hne
  rw [Series.reread, hshown, infer, Series.inferBy, hr.readEntries_values]

/-- A column of texts is read back if none stands for a missing value and one is plain. -/
theorem reread_texts {texts : List Bytes} (hpresent : ∀ t ∈ texts, t ≠ missingText)
    (hplain : ∃ t ∈ texts, Plain t) : (Series.texts (texts.map some)).reread r.infer = .texts (texts.map some) := by
  obtain ⟨t, hmem, hplain⟩ := hplain
  have hshown : ((Series.texts (texts.map some)).entries.map Entry.shown).map
      (fun t => if t = missingText then none else some t) = texts.map some := by
    rw [Series.entries, List.map_map, List.map_map, List.map_map]
    apply List.map_congr_left
    intro t ht
    exact if_neg (hpresent t ht)
  have hsome : some t ∈ texts.map some := List.mem_map_of_mem hmem
  have hints : readEntries (fun text => (r.int? text).map some) (texts.map some) = none :=
    readEntries_eq_none hsome (by rw [hr.int?_eq_none hplain.notTruth hplain.notInt]; rfl)
  have hfloats : readEntries r.float? (texts.map some) = none :=
    readEntries_eq_none hsome (hr.float?_eq_none hplain.notFloat)
  rw [Series.reread, hshown, infer, Series.inferBy, hints, hfloats]

end NumberReader.Standard

/-- The bytes of texts that look like numbers or truth values. -/
def isNumberByte (c : UInt8) : Bool := isDigitByte c || isLowerByte (lowerByte c) || (utf8 "_.+-").contains c

section Bytes

variable {text : Bytes} {c : UInt8}

/-- Bytes of numerals, and the letters of words for numbers in either case. -/
theorem isNumberByte_of_numeral : ∀ c : UInt8, (isHexadecimalByte c = true → isNumberByte c = true) ∧
    ((utf8 "infinityna").contains (lowerByte c) = true → isNumberByte c = true) :=
  forall_byte (by decide +kernel)

theorem mem_splitSign (hc : c ∈ text) (hplus : c ≠ byte '+') (hminus : c ≠ byte '-') : c ∈ (splitSign text).2 := by
  cases text with
  | nil => cases hc
  | cons d rest =>
    rw [splitSign]
    split
    next hd => exact (List.mem_cons.mp hc).resolve_left (hd ▸ hplus)
    next =>
      split
      next hd => exact (List.mem_cons.mp hc).resolve_left (hd ▸ hminus)
      next => exact hc

theorem plain_of_mem (hc : c ∈ text) (hout : isNumberByte c = false) : Plain text := by
  have hother : ∀ word : Bytes, word.all isNumberByte = true → text ≠ word := by
    rintro word hword rfl
    rw [List.all_eq_true.mp hword c hc] at hout
    cases hout
  have hmem : c ∈ (splitSign text).2 := by
    refine mem_splitSign hc ?_ ?_
    all_goals
      rintro rfl
      cases hout
  have hbytes : ∀ p : UInt8 → Bool, (p c = true → isNumberByte c = true) → (splitSign text).2.all p = false := by
    intro p hp
    rw [Bool.eq_false_iff, Ne, List.all_eq_true]
    intro hall
    rw [hp (hall c hmem)] at hout
    cases hout
  have hdecimal : isDecimalByte c = true → isNumberByte c = true := by
    intro hc
    exact (isNumberByte_of_numeral c).1 (by rw [isHexadecimalByte, hc]; rfl)
  have hdigit : isDigitByte c = true → isNumberByte c = true := by
    intro hc
    rw [isNumberByte, hc]
    rfl
  -- no word for a number has the byte, in whatever case it is written
  have hword : ∀ word ∈ [utf8 "inf", utf8 "infinity", utf8 "nan"], (splitSign text).2.map lowerByte ≠ word := by
    have hletters : ∀ word ∈ [utf8 "inf", utf8 "infinity", utf8 "nan"],
        word.all (utf8 "infinityna").contains = true := by decide +kernel
    rintro word hmember rfl
    have hletter := List.all_eq_true.mp (hletters _ hmember) (lowerByte c) (List.mem_map_of_mem hmem)
    rw [(isNumberByte_of_numeral c).2 hletter] at hout
    cases hout
  refine ⟨hother _ rfl, ?_, ?_, ?_⟩
  · have hall : ∀ word ∈ truthWords, word.all isNumberByte = true := by decide +kernel
    intro htruth
    exact hother text (hall text htruth) rfl
  · rw [isIntegerText, hbytes _ hdigit, Bool.and_false]
  · rw [isFloatText, isNumeral, hbytes _ hdecimal, hbytes _ (isNumberByte_of_numeral c).1, Bool.false_and,
      Bool.or_false, Bool.and_false, Bool.or_false, Bool.eq_false_iff, Ne, List.contains_iff_mem]
    exact fun hmember => hword _ hmember rfl

/-- A hexadecimal integer is no numeral: it has no exponent. -/
theorem plain_of_hexadecimal {digits : Bytes} (h : (splitSign text).2 = byte '0' :: byte 'x' :: digits)
    (hdigits : ∀ d ∈ digits, d ≠ byte 'p' ∧ d ≠ byte 'P') : Plain text := by
  have hother : ∀ word : Bytes, (splitSign word).2.head? ≠ some (byte '0') → text ≠ word := by
    rintro word hword rfl
    exact hword (by rw [h]; rfl)
  have hexponent : (byte '0' :: byte 'x' :: digits).any (fun c => c == byte 'p' || c == byte 'P') = false := by
    rw [Bool.eq_false_iff, Ne, List.any_eq_true]
    rintro ⟨d, hd, hmark⟩
    simp only [Bool.or_eq_true, beq_iff_eq] at hmark
    rcases List.mem_cons.mp hd with rfl | hd
    · exact absurd hmark (by decide)
    rcases List.mem_cons.mp hd with rfl | hd
    · exact absurd hmark (by decide)
    · exact hmark.elim (hdigits d hd).1 (hdigits d hd).2
  refine ⟨hother _ (by decide), ?_, ?_, ?_⟩
  · have hall : ∀ word ∈ truthWords, (splitSign word).2.head? ≠ some (byte '0') := by decide +kernel
    exact fun htruth => hother text (hall text htruth) rfl
  · rw [isIntegerText, h]
    rfl
  · have hwords : ∀ word ∈ [utf8 "inf", utf8 "infinity", utf8 "nan"], word.head? ≠ some (byte '0') := by decide +kernel
    have hword : (byte '0' :: byte 'x' :: digits).map lowerByte ∉ [utf8 "inf", utf8 "infinity", utf8 "nan"] :=
      fun hmember => hwords _ hmember rfl
    rw [isFloatText, h, isNumeral, hexponent, Bool.and_false, Bool.or_false, List.contains_eq_mem, decide_eq_false hword]
    rfl

end Bytes

/-- The capital words that are read as truth values or numbers. -/
def numberWords : List Bytes := [utf8 "TRUE", utf8 "FALSE", utf8 "INF", utf8 "INFINITY", utf8 "NAN"]

/-- A text without small letters that begins like a word. -/
structure IsCapital (text : Bytes) : Prop where
  first : ∃ c rest, text = c :: rest ∧ isDigitByte c = false ∧ c ≠ byte '+' ∧ c ≠ byte '-' ∧ c ≠ byte '.'
  capital : ∀ c ∈ text, isLowerByte c = false

namespace IsCapital

variable {text : Bytes}

theorem upperByte_lowerByte : ∀ c : UInt8, isLowerByte c = false → upperByte (lowerByte c) = c :=
  forall_byte (by decide +kernel)

theorem splitSign_eq (h : IsCapital text) : splitSign text = (false, text) := by
  obtain ⟨c, rest, rfl, -, hplus, hminus, -⟩ := h.first
  rw [splitSign, if_neg hplus, if_neg hminus]

theorem eq_of_lower (h : IsCapital text) {word : Bytes} (hword : text.map lowerByte = word) :
    text = word.map upperByte := by
  rw [← hword, List.map_map]
  have hsame : text.map (upperByte ∘ lowerByte) = text.map id :=
    List.map_congr_left fun c hc => upperByte_lowerByte c (h.capital c hc)
  rw [hsame, List.map_id]

theorem ne_of_small (h : IsCapital text) {word : Bytes} (hword : word.any isLowerByte = true) : text ≠ word := by
  obtain ⟨c, hc, hsmall⟩ := List.any_eq_true.mp hword
  rintro rfl
  rw [h.capital c hc] at hsmall
  cases hsmall

theorem plain_iff (h : IsCapital text) : Plain text ↔ text ∉ numberWords := by
  constructor
  · have hall : ∀ word ∈ numberWords, ¬ Plain word := by decide +kernel
    intro hplain hmem
    exact hall text hmem hplain
  · intro hmem
    simp only [numberWords, List.mem_cons, List.not_mem_nil, or_false, not_or] at hmem
    obtain ⟨htrue, hfalse, hinf, hinfinity, hnan⟩ := hmem
    have htruth : text ∉ truthWords := by
      simp only [truthWords, List.mem_cons, List.not_mem_nil, or_false, not_or]
      exact ⟨h.ne_of_small rfl, htrue, h.ne_of_small rfl, h.ne_of_small rfl, hfalse, h.ne_of_small rfl⟩
    have hword : text.map lowerByte ∉ [utf8 "inf", utf8 "infinity", utf8 "nan"] := by
      simp only [List.mem_cons, List.not_mem_nil, or_false, not_or]
      exact ⟨fun hw => hinf (h.eq_of_lower hw), fun hw => hinfinity (h.eq_of_lower hw),
        fun hw => hnan (h.eq_of_lower hw)⟩
    have hsign := h.splitSign_eq
    obtain ⟨c, rest, rfl, hdigit, -, -, hpoint⟩ := h.first
    refine ⟨h.ne_of_small rfl, htruth, ?_, ?_⟩
    · simp [isIntegerText, hsign, hdigit]
    · rw [isFloatText, hsign, List.contains_eq_mem, decide_eq_false hword]
      simp [isNumeral, hdigit, hpoint]

end IsCapital

/-- A column of one such word comes back as something else. -/
theorem NumberReader.Standard.reread_numberWord {r : NumberReader} (hr : r.Standard) :
    ∀ word ∈ numberWords, (((Series.texts [some word]).reread r.infer).entries.headD .missing).text? ≠ some word := by
  have hone : ∀ word ∈ numberWords,
      (Series.texts [some word]).reread r.infer = .inferBy r.int? r.float? [some word] := by
    intro word hword
    have hpresent : ∀ word ∈ numberWords, word ≠ missingText := by decide +kernel
    exact congrArg (fun v => Series.inferBy r.int? r.float? [v]) (if_neg (hpresent word hword))
  have hint : ∀ {word : Bytes} {v : Int64}, r.int? word = some v →
      Series.inferBy r.int? r.float? [some word] = .ints [v] := by
    intro word v hv
    simp [Series.inferBy, readEntries, hv]
  have hfloat : ∀ {word : Bytes} {v : Option Binary64}, word ∈ [utf8 "INF", utf8 "INFINITY", utf8 "NAN"] →
      r.float? word = some v → Series.inferBy r.int? r.float? [some word] = .floats [v] := by
    intro word v hword hv
    have hnone : ∀ word ∈ [utf8 "INF", utf8 "INFINITY", utf8 "NAN"],
        word ∉ truthWords ∧ isIntegerText word = false := by
      decide +kernel
    simp [Series.inferBy, readEntries, hr.int?_eq_none (hnone word hword).1 (hnone word hword).2, hv]
  intro word hword
  rw [hone word hword]
  simp only [numberWords, List.mem_cons, List.not_mem_nil, or_false] at hword
  rcases hword with rfl | rfl | rfl | rfl | rfl
  · rw [hint hr.int_truth.1]
    decide +kernel
  · rw [hint hr.int_truth.2]
    decide +kernel
  · rw [hfloat (by simp) (hr.float_infinite _ (by simp))]
    decide +kernel
  · rw [hfloat (by simp) (hr.float_infinite _ (by simp))]
    decide +kernel
  · rw [hfloat (by simp) hr.float_undefined]
    decide +kernel

end StackMachine
