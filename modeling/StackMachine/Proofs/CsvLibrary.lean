import Mathlib.Data.List.TakeWhile
import StackMachine.Frame.Saved
import StackMachine.Proofs.ColumnTypes

namespace StackMachine

/-- What a library does with comma separated values: lines of fields as a text, such a text as lines of fields, and
fields as numbers. -/
structure CsvLibrary where
  render : List (List Bytes) → Bytes
  records? : Bytes → Option (List (List Bytes))
  reader : NumberReader

namespace CsvLibrary

/-- The formats write and read comma separated values with this library. Fields are quoted so that they are read back,
save that a carriage return may be lost and an empty field alone on its line. A missing value is written as a text of
its own and read from it, and the values of a column are numbers if they can all be read as such. -/
structure Serves (lib : CsvLibrary) [FrameFormats] : Prop where
  quoting : ∀ {lines width}, 2 ≤ width → (∀ line ∈ lines, line.length = width) →
    (∀ line ∈ lines, ∀ field ∈ line, carriageReturn ∉ field) → lib.records? (lib.render lines) = some lines
  exported : ∀ f : Frame,
    FrameFormats.writeCsv none f = ⟨lib.render (f.names :: f.rows.map (List.map Entry.shown)), none⟩
  imported : ∀ {text names rows}, lib.records? text = some (names :: rows) → rows ≠ [] →
    FrameFormats.readCsv none text = .ok (Frame.ofRecords lib.reader.infer names rows)
  numbers : lib.reader.Standard

/-- A frame of two columns and more comes back with the types that its texts suggest. -/
theorem Serves.readCsv_writeCsv [FrameFormats] {lib : CsvLibrary} (granted : lib.Serves) {f : Frame}
    (htwo : 2 ≤ f.columns.length) (hsize : ∀ c ∈ f.columns, c.series.size = f.rowCount) (hrows : f.rowCount ≠ 0)
    (hnames : ∀ name ∈ f.names, carriageReturn ∉ name)
    (hentries : ∀ c ∈ f.columns, ∀ e ∈ c.series.entries, carriageReturn ∉ e.shown) :
    FrameFormats.readCsv none (FrameFormats.writeCsv none f).text =
      .ok ⟨f.columns.map fun c => ⟨c.name, c.series.reread lib.reader.infer⟩⟩ := by
  have hread := granted.quoting htwo f.length_shown_lines (Frame.unbroken_shown hsize hnames hentries)
  have hfilled : f.rows.map (List.map Entry.shown) ≠ [] := by
    rw [Frame.shown_rows]
    intro hnil
    cases hcount : f.rowCount with
    | zero => exact hrows hcount
    | succ n =>
      rw [hcount] at hnil
      cases hnil
  rw [granted.exported, granted.imported hread hfilled, Frame.ofRecords_shown hsize]

end CsvLibrary

section Integers

theorem decimalInt?_value (v : Int64) : decimalInt? (value v) = some v := by
  have hlow := v.le_toInt
  have hhigh := v.toInt_lt
  have hbound : wordBound = 9223372036854775808 := rfl
  have hdigits : ∀ n, ((decimalNat n).all isDigitByte && decide ((decimalNat n).head? ≠ none)) = true := by
    intro n
    have hall : (decimalNat n).all isDigitByte = true := List.all_eq_true.mpr fun c => isDigitByte_of_mem_decimalNat
    simp [hall, decimalNat_ne_nil]
  unfold decimalInt? value
  cases hv : v.toInt with
  | ofNat n =>
    rw [hv] at hhigh
    have hn : n < wordBound := by
      have : (n : Int) < 2 ^ 63 := hhigh
      omega
    have hsign : (decimalNat n).head? ≠ some (byte '-') := by
      intro hminus
      have := isDigitByte_of_mem_decimalNat (List.mem_of_mem_head? hminus)
      cases this
    have hword : Int64.ofNat n = v := by rw [← Int64.ofInt_toInt v, hv]; rfl
    simp only [decimal, splitSign_decimalNat, hdigits, if_true, digitsValue_decimalNat, if_neg hsign, if_pos hn, hword]
  | negSucc n =>
    rw [hv] at hlow
    have hn : n + 1 ≤ wordBound := by omega
    have hsign : splitSign (byte '-' :: decimalNat (n + 1)) = (true, decimalNat (n + 1)) := rfl
    have hword : Int64.ofInt (-(n + 1 : Nat)) = v := by rw [← Int64.ofInt_toInt v, hv]; rfl
    simp only [decimal, hsign, hdigits, if_true, digitsValue_decimalNat, List.head?_cons, if_pos hn, hword]

theorem truth?_eq_none {text : Bytes} (h : text ∉ truthWords) : truth? text = none := by
  simp only [truthWords, List.mem_cons, List.not_mem_nil, or_false, not_or] at h
  simp [truth?, h]

theorem intOfText?_value (v : Int64) : intOfText? (value v) = some v := by
  have hword : value v ∉ truthWords := by
    have hall : ∀ word ∈ truthWords, word.all (fun c => isDigitByte c || c == byte '-') = false := by decide +kernel
    exact fun hmem => value_ne (hall _ hmem) rfl
  rw [intOfText?, truth?_eq_none hword, decimalInt?_value]
  rfl

theorem isIntegerText_of_decimalInt? {text : Bytes} (h : (decimalInt? text).isSome) : isIntegerText text = true := by
  have hdigits : ((splitSign text).2.all isDigitByte && decide ((splitSign text).2.head? ≠ none)) = true := by
    by_contra hnot
    simp only [decimalInt?, if_neg hnot] at h
    cases h
  rw [Bool.and_eq_true, decide_eq_true_eq, Ne, List.head?_eq_none_iff] at hdigits
  rw [isIntegerText, hdigits.1, Bool.and_true, Bool.not_eq_true', List.isEmpty_eq_false_iff]
  exact hdigits.2

end Integers

section Floats

variable {text : Bytes} {c : UInt8}

theorem isDecimalByte_of_reading : ∀ c : UInt8, (isDigitOrGap c = true → isDecimalByte c = true) ∧
    (foldCase c = byte 'e' → isDecimalByte c = true) :=
  forall_byte (by decide +kernel)

theorem readExponent?_eq_none (hc : c ∈ text) (hout : isDecimalByte c = false) : readExponent? text = none := by
  have hmem : c ∈ (splitSign text).2 := by
    refine mem_splitSign hc ?_ ?_
    all_goals
      rintro rfl
      cases hout
  unfold readExponent?
  cases hd : (splitSign text).2 with
  | nil => simp [hd]
  | cons d rest =>
    rw [hd] at hmem
    have hall : (d :: rest).all isDigitOrGap = false := by
      rw [Bool.eq_false_iff, Ne, List.all_eq_true]
      intro hall
      rw [(isDecimalByte_of_reading c).1 (hall c hmem)] at hout
      cases hout
    simp [hd, hall]

theorem mem_dropWhile_gap (hc : c ∈ text) (hout : isDecimalByte c = false) : c ∈ text.dropWhile isDigitOrGap := by
  rw [← List.takeWhile_append_dropWhile (p := isDigitOrGap) (l := text), List.mem_append] at hc
  rcases hc with htaken | hrest
  · rw [(isDecimalByte_of_reading c).1 (List.mem_takeWhile_imp htaken)] at hout
    cases hout
  · exact hrest

/-- After the digits, such a byte keeps an exponent from being read. -/
theorem exponent_unread (hc : c ∈ text) (hout : isDecimalByte c = false) :
    ∃ d more, text = d :: more ∧ (foldCase d = byte 'e' → readExponent? more = none) := by
  cases text with
  | nil => cases hc
  | cons d more =>
    refine ⟨d, more, rfl, ?_⟩
    intro hmark
    rcases List.mem_cons.mp hc with rfl | hmore
    · rw [(isDecimalByte_of_reading c).2 hmark] at hout
      cases hout
    · exact readExponent?_eq_none hmore hout

theorem readUnsignedFloat_malformed (hc : c ∈ text) (hout : isDecimalByte c = false) (negative : Bool) :
    readUnsignedFloat negative text = .malformed := by
  have hrest := mem_dropWhile_gap hc hout
  unfold readUnsignedFloat
  cases hd : text.dropWhile isDigitOrGap with
  | nil => rw [hd] at hrest; cases hrest
  | cons d more =>
    rw [hd] at hrest
    by_cases hpoint : d = byte '.'
    · have hmore : c ∈ more := by
        rcases List.mem_cons.mp hrest with rfl | hmore
        · rw [hpoint] at hout
          cases hout
        · exact hmore
      obtain ⟨mark, digits, htail, hnone⟩ := exponent_unread (mem_dropWhile_gap hmore hout) hout
      simp only [hpoint, if_true, htail]
      by_cases hmark : foldCase mark = byte 'e'
      · simp only [if_pos hmark, hnone hmark]
      · simp only [if_neg hmark]
    · obtain ⟨mark, digits, htail, hnone⟩ := exponent_unread hrest hout
      simp only [if_neg hpoint]
      cases htail
      by_cases hmark : foldCase d = byte 'e'
      · simp only [if_pos hmark, hnone hmark]
      · simp only [if_neg hmark]

/-- A number begins with a digit or a point: an underscore never stands first. -/
theorem readUnsignedFloat_first (hdigit : isDigitByte c = false) (hpoint : c ≠ byte '.') (rest : Bytes)
    (negative : Bool) : readUnsignedFloat negative (c :: rest) = .malformed := by
  unfold readUnsignedFloat
  by_cases hgap : c = byte '_'
  · have hcontains : (c :: rest).contains (byte '_') = true := by simp [hgap]
    have hfit : underscoresFit isDigitByte false false (c :: rest) = false := by
      rw [underscoresFit, hdigit, hgap]
      rfl
    dsimp only
    split
    next => rfl
    next => simp only [hcontains, hfit, Bool.not_false, Bool.and_self, if_true, ite_self]
  · have hnone : isDigitOrGap c = false := by simp [isDigitOrGap, hdigit, hgap]
    have hwhole : (c :: rest).takeWhile isDigitOrGap = [] := by rw [List.takeWhile_cons, hnone]; rfl
    have hrest : (c :: rest).dropWhile isDigitOrGap = c :: rest := by rw [List.dropWhile_cons, hnone]; rfl
    simp only [hwhole, hrest, if_neg hpoint]
    split
    next => rfl
    next => rfl

theorem isNumeral_of_readUnsignedFloat {negative : Bool} (h : readUnsignedFloat negative text ≠ .malformed) :
    isNumeral text = true := by
  have hall : text.all isDecimalByte = true := by
    rw [List.all_eq_true]
    intro c hc
    cases hout : isDecimalByte c with
    | true => rfl
    | false => exact absurd (readUnsignedFloat_malformed hc hout negative) h
  cases text with
  | nil => exact absurd rfl h
  | cons c rest =>
    have hfirst : (isDigitByte c || c == byte '.') = true := by
      cases hdigit : isDigitByte c with
      | true => rfl
      | false =>
        by_cases hpoint : c = byte '.'
        · simp [hpoint]
        · exact absurd (readUnsignedFloat_first hdigit hpoint rest negative) h
    rw [isNumeral, List.head?_cons, Option.any_some, hfirst, hall]
    rfl

theorem splitSign_nan (h : text.map lowerByte = utf8 "nan") : (splitSign text).2 = text := by
  cases text with
  | nil => rfl
  | cons c rest =>
    have hfirst : lowerByte c = byte 'n' := (List.cons.inj h).1
    have hsigns : lowerByte (byte '+') ≠ byte 'n' ∧ lowerByte (byte '-') ≠ byte 'n' := by decide
    have hplus : c ≠ byte '+' := fun hc => hsigns.1 (hc ▸ hfirst)
    have hminus : c ≠ byte '-' := fun hc => hsigns.2 (hc ▸ hfirst)
    rw [splitSign, if_neg hplus, if_neg hminus]

theorem isFloatText_of_floatOfText? (h : (floatOfText? text).isSome) : isFloatText text = true := by
  unfold isFloatText
  by_cases hword : (splitSign text).2.map lowerByte ∈ [utf8 "inf", utf8 "infinity", utf8 "nan"]
  · rw [List.contains_iff_mem.mpr hword]
    rfl
  · simp only [List.mem_cons, List.not_mem_nil, or_false, not_or] at hword
    obtain ⟨hinf, hinfinity, hnan⟩ := hword
    have hread : readFloat text = readUnsignedFloat (splitSign text).1 (splitSign text).2 := by
      have hwhole : text.map lowerByte ≠ utf8 "nan" := fun hw => hnan (by rw [splitSign_nan hw]; exact hw)
      simp only [readFloat, hinf, hinfinity, or_self, if_false, if_neg hwhole]
    rw [floatOfText?, hread] at h
    have hformed : readUnsignedFloat (splitSign text).1 (splitSign text).2 ≠ .malformed := by
      intro hmalformed
      rw [hmalformed] at h
      cases h
    rw [isNumeral_of_readUnsignedFloat hformed, Bool.or_true]

end Floats

def plainReader : NumberReader := ⟨intOfText?, floatOfText?⟩

theorem standard_plainReader : plainReader.Standard where
  int_value := intOfText?_value
  int_truth := by decide +kernel
  int_only := by
    intro text h
    by_cases hword : text ∈ truthWords
    · exact .inl hword
    · refine .inr (isIntegerText_of_decimalInt? ?_)
      have hread : intOfText? text = decimalInt? text := by
        rw [intOfText?, truth?_eq_none hword]
        rfl
      rw [← hread]
      exact h
  float_infinite := by decide +kernel
  float_undefined := by decide +kernel
  float_only := fun _ => isFloatText_of_floatOfText?

def plainLibrary : CsvLibrary where
  render := List.flatMap csvLine
  records? text := (readCsv text).fields.toOption
  reader := plainReader

theorem serves_plainLibrary : plainLibrary.Serves where
  quoting {lines _} htwo hwidth hreturn := by
    have hread : plainLibrary.records? (plainLibrary.render lines) = (.ok lines : Except CsvFault _).toOption :=
      congrArg Except.toOption (fields_readCsv hreturn hwidth htwo)
    exact hread
  exported f := by
    have hlines : f.csv = (f.names :: f.rows.map (List.map Entry.shown)).flatMap csvLine := by
      rw [List.flatMap_cons, List.flatMap_map]
      rfl
    exact congrArg (Written.mk · none) hlines
  imported {text names rows} hread _ := by
    have hfields : (readCsv text).fields.toOption = some (names :: rows) := hread
    have hframe : Frame.ofCsv text = .ok (Frame.ofRecords plainLibrary.reader.infer names rows) := by
      rw [Frame.ofCsv]
      cases hf : (readCsv text).fields with
      | error fault =>
        rw [hf] at hfields
        cases hfields
      | ok lines =>
        rw [hf] at hfields
        cases hfields
        rfl
    exact hframe
  numbers := standard_plainReader

end StackMachine
