import Mathlib.Data.List.Basic
import StackMachine.Frame.Saved

namespace StackMachine

theorem lineFeeds_eq {text : Bytes} (h : carriageReturn ∉ text) : lineFeeds text = text := by
  fun_induction lineFeeds text with
  | case1 => rfl
  | case2 => simp at h
  | case3 => rfl
  | case4 c d rest hreturn ih => simp [hreturn.1] at h
  | case5 c d rest _ ih => rw [ih (List.not_mem_of_not_mem_cons h)]

theorem mem_doubledQuotes {c : UInt8} {field : Bytes} : c ∈ doubledQuotes field ↔ c ∈ field := by
  unfold doubledQuotes
  rw [List.mem_flatMap]
  constructor
  · rintro ⟨d, hd, hc⟩
    split at hc
    · simp only [List.mem_cons, List.not_mem_nil, or_false, or_self] at hc
      rwa [hc]
    · rw [List.mem_singleton] at hc
      rwa [hc]
  · intro hc
    refine ⟨c, hc, ?_⟩
    split
    · exact List.mem_cons_self
    · exact List.mem_cons_self

theorem joined_cons_cons (separator first second : Bytes) (rest : List Bytes) :
    joined separator (first :: second :: rest) = first ++ (separator ++ joined separator (second :: rest)) := by
  simp [joined]

namespace CsvScan

variable {s : CsvScan} {c : UInt8} {field rest : Bytes}

/-- What one byte does inside quotes, after a quote that may close them, and outside of quotes. -/
theorem read_cons (s : CsvScan) (c : UInt8) (rest : Bytes) :
    (s.state = .quoted → s.read (c :: rest) =
      if c = quoteMark then (s.moved .closed).read rest
      else if c = newline ∧ rest ≠ [] then
        { s with place := ⟨s.place.line + 1, 1⟩, field := c :: s.field }.read rest
      else (s.taking c .quoted).read rest) ∧
    (s.state = .closed → s.read (c :: rest) =
      if c = quoteMark then (s.taking c .quoted).read rest
      else if c = comma then s.nextField.read rest
      else if c = newline then
        ⟨s.record :: ((atLine (s.place.line + 1)).read rest).records, ((atLine (s.place.line + 1)).read rest).fault⟩
      else ⟨[], some (.strayQuote s.start { s.place with column := s.place.column - 1 })⟩) ∧
    (s.state = .start ∨ s.state = .bare → s.read (c :: rest) =
      if c = comma then s.nextField.read rest
      else if c = newline then
        ⟨if s.state = .start ∧ s.fields = [] then ((atLine (s.place.line + 1)).read rest).records
          else s.record :: ((atLine (s.place.line + 1)).read rest).records,
          ((atLine (s.place.line + 1)).read rest).fault⟩
      else if c = quoteMark then
        if s.state = .start then (s.moved .quoted).read rest else ⟨[], some (.bareQuote s.start s.place)⟩
      else (s.taking c .bare).read rest) := by
  rw [read]
  refine ⟨?_, ?_, ?_⟩
  · intro hs
    simp only [hs]
  · intro hs
    simp only [hs]
  · rintro (hs | hs)
    · simp only [hs]
    · simp only [hs]

theorem read_quoted_quote (hs : s.state = .quoted) : s.read (quoteMark :: rest) = (s.moved .closed).read rest := by
  rw [(read_cons s quoteMark rest).1 hs, if_pos rfl]

theorem read_closed_quote (hs : s.state = .closed) :
    s.read (quoteMark :: rest) = (s.taking quoteMark .quoted).read rest := by
  rw [(read_cons s quoteMark rest).2.1 hs, if_pos rfl]

/-- Any other byte of a quoted field is taken; at a line end the reader is on the next line. -/
theorem read_quoted_other (hs : s.state = .quoted) (hc : c ≠ quoteMark) (hrest : rest ≠ []) :
    s.read (c :: rest) =
      { s with
        place := if c = newline then ⟨s.place.line + 1, 1⟩ else ⟨s.place.line, s.place.column + 1⟩
        field := c :: s.field }.read rest := by
  rw [(read_cons s c rest).1 hs, if_neg hc]
  by_cases hline : c = newline
  · rw [if_pos ⟨hline, hrest⟩, if_pos hline]
  · rw [if_neg fun h => hline h.1, if_neg hline, taking, moved, hs]

/-- The state in which a field has been read, quoted or not. -/
def Closing (s : CsvScan) : Prop := s.state = .start ∧ s.field = [] ∨ s.state = .bare ∨ s.state = .closed

theorem Closing.read_comma (hs : s.Closing) : s.read (comma :: rest) = s.nextField.read rest := by
  have hquote : comma ≠ quoteMark := by decide
  obtain ⟨-, hclosed, hopen⟩ := read_cons s comma rest
  rcases hs with ⟨hs, -⟩ | hs | hs
  · rw [hopen (.inl hs), if_pos rfl]
  · rw [hopen (.inr hs), if_pos rfl]
  · rw [hclosed hs, if_neg hquote, if_pos rfl]

/-- A line end closes the record, unless the line is empty. -/
theorem Closing.read_newline (hs : s.Closing) (hfilled : s.state = .start → s.fields ≠ []) :
    s.read (newline :: rest) =
      ⟨s.record :: ((atLine (s.place.line + 1)).read rest).records, ((atLine (s.place.line + 1)).read rest).fault⟩ := by
  have hquote : newline ≠ quoteMark := by decide
  have hcomma : newline ≠ comma := by decide
  have hnonempty : ¬ (s.state = .start ∧ s.fields = []) := fun h => hfilled h.1 h.2
  obtain ⟨-, hclosed, hopen⟩ := read_cons s newline rest
  rcases hs with ⟨hs, -⟩ | hs | hs
  · rw [hopen (.inl hs), if_neg hcomma, if_pos rfl, if_neg hnonempty]
  · rw [hopen (.inr hs), if_neg hcomma, if_pos rfl, if_neg hnonempty]
  · rw [hclosed hs, if_neg hquote, if_neg hcomma, if_pos rfl]

/-- Bytes without a meaning of their own are taken as they are. -/
theorem read_plain (hs : s.state = .start ∨ s.state = .bare) (hquote : c ≠ quoteMark) (hcomma : c ≠ comma)
    (hline : c ≠ newline) : s.read (c :: rest) = (s.taking c .bare).read rest := by
  rw [(read_cons s c rest).2.2 hs, if_neg hcomma, if_neg hline, if_neg hquote]

/-- A text leads the reader from one state to another, whatever comes after it. -/
def Consumes (s : CsvScan) (text : Bytes) (t : CsvScan) : Prop := ∀ rest, s.read (text ++ rest) = t.read rest

theorem consumes_quoted (field : Bytes) (hs : s.state = .quoted) :
    ∃ place, s.Consumes (doubledQuotes field ++ [quoteMark])
      { s with place, state := .closed, field := field.reverse ++ s.field } := by
  induction field generalizing s with
  | nil => exact ⟨(s.moved .closed).place, fun rest => read_quoted_quote hs⟩
  | cons c field ih =>
    have hreverse : (c :: field).reverse ++ s.field = field.reverse ++ c :: s.field := by simp
    rw [hreverse]
    by_cases hc : c = quoteMark
    · subst hc
      obtain ⟨place, hfield⟩ := ih (s := (s.moved .closed).taking quoteMark .quoted) rfl
      refine ⟨place, fun rest => ?_⟩
      have htwice : doubledQuotes (quoteMark :: field) ++ [quoteMark] ++ rest =
          quoteMark :: quoteMark :: (doubledQuotes field ++ [quoteMark] ++ rest) := by simp [doubledQuotes]
      rw [htwice, read_quoted_quote hs, read_closed_quote rfl]
      exact hfield rest
    · obtain ⟨place, hfield⟩ := ih (s := { s with
        place := if c = newline then ⟨s.place.line + 1, 1⟩ else ⟨s.place.line, s.place.column + 1⟩
        field := c :: s.field }) hs
      refine ⟨place, fun rest => ?_⟩
      have honce : doubledQuotes (c :: field) ++ [quoteMark] ++ rest =
          c :: (doubledQuotes field ++ [quoteMark] ++ rest) := by simp [doubledQuotes, hc]
      rw [honce, read_quoted_other hs hc (by simp)]
      exact hfield rest

theorem consumes_bare (hs : s.state = .bare) (hfield : ∀ c ∈ field, c ≠ quoteMark ∧ c ≠ comma ∧ c ≠ newline) :
    ∃ place, s.Consumes field { s with place, field := field.reverse ++ s.field } := by
  induction field generalizing s with
  | nil => exact ⟨s.place, fun rest => rfl⟩
  | cons c field ih =>
    obtain ⟨⟨hquote, hcomma, hline⟩, hlater⟩ := List.forall_mem_cons.mp hfield
    obtain ⟨place, hrest⟩ := ih (s := s.taking c .bare) rfl hlater
    refine ⟨place, fun rest => ?_⟩
    rw [List.cons_append, read_plain (.inr hs) hquote hcomma hline, hrest rest]
    simp [taking, moved, hs]

theorem plain_of_not_needsQuotes (h : ¬ needsQuotes field = true) :
    ∀ c ∈ field, c ≠ quoteMark ∧ c ≠ comma ∧ c ≠ newline := by
  intro c hc
  simp only [needsQuotes, Bool.or_eq_true, not_or, List.any_eq_true, not_exists, not_and, beq_iff_eq] at h
  obtain ⟨⟨-, hspecial⟩, -⟩ := h
  obtain ⟨⟨⟨hline, -⟩, hquote⟩, hcomma⟩ := hspecial c hc
  exact ⟨hquote, hcomma, hline⟩

/-- A written field leads from the start of a field to its end. -/
theorem consumes_csvField (hs : s.state = .start) (hempty : s.field = []) (field : Bytes) :
    ∃ place state, (Closing ⟨s.start, place, state, s.fields, field.reverse⟩) ∧ (state = .start → field = []) ∧
      s.Consumes (csvField field) ⟨s.start, place, state, s.fields, field.reverse⟩ := by
  unfold csvField
  split
  next =>
    obtain ⟨place, hfield⟩ := consumes_quoted (s := s.moved .quoted) field rfl
    refine ⟨place, .closed, .inr (.inr rfl), nofun, fun rest => ?_⟩
    have hopen : s.read (quoteMark :: (doubledQuotes field ++ [quoteMark] ++ rest)) =
        (s.moved .quoted).read (doubledQuotes field ++ [quoteMark] ++ rest) := by
      have hcomma : quoteMark ≠ comma := by decide
      have hline : quoteMark ≠ newline := by decide
      rw [(read_cons s quoteMark _).2.2 (.inl hs), if_neg hcomma, if_neg hline, if_pos rfl, if_pos hs]
    rw [List.append_assoc, List.append_assoc, List.singleton_append, ← List.append_assoc, hopen, hfield rest]
    simp [moved, hempty]
  next hplain =>
    cases field with
    | nil =>
      refine ⟨s.place, .start, .inl ⟨rfl, rfl⟩, fun _ => rfl, fun rest => ?_⟩
      obtain ⟨start, place, state, fields, held⟩ := s
      obtain rfl : state = .start := hs
      obtain rfl : held = [] := hempty
      rfl
    | cons c field =>
      obtain ⟨⟨hquote, hcomma, hline⟩, hlater⟩ := List.forall_mem_cons.mp (plain_of_not_needsQuotes hplain)
      obtain ⟨place, hfield⟩ := consumes_bare (s := s.taking c .bare) rfl hlater
      refine ⟨place, .bare, .inr (.inl rfl), nofun, fun rest => ?_⟩
      rw [List.cons_append, read_plain (.inl hs) hquote hcomma hline, hfield rest]
      simp [taking, moved, hempty]

/-- The fields of a line, written after one another, become one record. -/
theorem read_fields (hs : s.state = .start) (hempty : s.field = []) {fields : List Bytes} (hfields : fields ≠ [])
    (hfilled : s.fields ≠ [] ∨ fields ≠ [[]]) (rest : Bytes) :
    ∃ line, s.read (joined [comma] (fields.map csvField) ++ newline :: rest) =
      ⟨⟨s.start, s.fields.reverse ++ fields⟩ :: ((atLine line).read rest).records, ((atLine line).read rest).fault⟩ := by
  induction fields generalizing s with
  | nil => exact absurd rfl hfields
  | cons field fields ih =>
    obtain ⟨place, state, hclosing, hnone, hfield⟩ := consumes_csvField hs hempty field
    cases fields with
    | nil =>
      have hone : joined [comma] ([field].map csvField) = csvField field := by simp [joined]
      refine ⟨place.line + 1, ?_⟩
      rw [hone, hfield, hclosing.read_newline]
      · simp [record]
      · intro hstart
        rcases hfilled with hbefore | hother
        · exact hbefore
        · rw [hnone hstart] at hother
          exact absurd rfl hother
    | cons next fields =>
      rw [List.map_cons, List.map_cons, joined_cons_cons, List.append_assoc, hfield, List.append_assoc,
        List.singleton_append, hclosing.read_comma]
      obtain ⟨line, hline⟩ := ih (s := nextField ⟨s.start, place, state, s.fields, field.reverse⟩) rfl rfl
        (List.cons_ne_nil _ _) (.inl (List.cons_ne_nil _ _))
      refine ⟨line, hline.trans ?_⟩
      simp [nextField, moved]

theorem read_lines {lines : List (List Bytes)} (h : ∀ line ∈ lines, line ≠ [] ∧ line ≠ [[]]) (n : Nat) :
    ((atLine n).read (lines.flatMap csvLine)).fault = none ∧
      ((atLine n).read (lines.flatMap csvLine)).records.map CsvRecord.fields = lines := by
  induction lines generalizing n with
  | nil => exact ⟨rfl, rfl⟩
  | cons line lines ih =>
    obtain ⟨⟨hfields, hfilled⟩, hlater⟩ := List.forall_mem_cons.mp h
    obtain ⟨next, hnext⟩ := read_fields (s := atLine n) rfl rfl hfields (.inr hfilled) (lines.flatMap csvLine)
    obtain ⟨hfault, hrecords⟩ := ih hlater next
    rw [List.flatMap_cons, csvLine, List.append_assoc, List.singleton_append, hnext]
    refine ⟨hfault, ?_⟩
    rw [List.map_cons, hrecords]
    rfl

end CsvScan

section Lines

variable {lines : List (List Bytes)} {width : Nat}

theorem carriageReturn_not_mem_csvField {field : Bytes} (h : carriageReturn ∉ field) :
    carriageReturn ∉ csvField field := by
  have hquote : carriageReturn ≠ quoteMark := by decide
  unfold csvField
  split
  · simp [mem_doubledQuotes, h, hquote]
  · exact h

theorem carriageReturn_not_mem_csvLine {line : List Bytes} (h : ∀ field ∈ line, carriageReturn ∉ field) :
    carriageReturn ∉ csvLine line := by
  have hcomma : carriageReturn ≠ comma := by decide
  have hline : carriageReturn ≠ newline := by decide
  have hjoined : carriageReturn ∉ joined [comma] (line.map csvField) := by
    induction line with
    | nil => simp [joined]
    | cons field line ih =>
      have hfield := carriageReturn_not_mem_csvField (h field List.mem_cons_self)
      have hrest := ih fun field hmem => h field (List.mem_cons_of_mem _ hmem)
      cases line with
      | nil => simpa [joined] using hfield
      | cons next line =>
        rw [List.map_cons, List.map_cons, joined_cons_cons, List.mem_append, List.singleton_append, List.mem_cons]
        rintro (hmem | hmem | hmem)
        · exact hfield hmem
        · exact hcomma hmem
        · exact hrest hmem
  rw [csvLine, List.mem_append, List.mem_singleton]
  rintro (hmem | hmem)
  · exact hjoined hmem
  · exact hline hmem

/-- Lines of at least two fields, as many on each, are read back as they were written. -/
theorem fields_readCsv (hreturn : ∀ line ∈ lines, ∀ field ∈ line, carriageReturn ∉ field)
    (hwidth : ∀ line ∈ lines, line.length = width) (htwo : 2 ≤ width) :
    (readCsv (lines.flatMap csvLine)).fields = .ok lines := by
  have htext : carriageReturn ∉ lines.flatMap csvLine := by
    rw [List.mem_flatMap]
    rintro ⟨line, hline, hmem⟩
    exact carriageReturn_not_mem_csvLine (hreturn line hline) hmem
  have hlines : ∀ line ∈ lines, line ≠ [] ∧ line ≠ [[]] := by
    intro line hline
    have hlength := hwidth line hline
    constructor
    · rintro rfl
      rw [List.length_nil] at hlength
      omega
    · rintro rfl
      rw [List.length_singleton] at hlength
      omega
  obtain ⟨hfault, hrecords⟩ := CsvScan.read_lines hlines 1
  rw [readCsv, lineFeeds_eq htext, CsvText.fields]
  generalize (CsvScan.atLine 1).read (lines.flatMap csvLine) = text at hfault hrecords
  -- every record is as wide as the first, so none is found that is not
  have hsame : ∀ r ∈ text.records, r.fields.length = width := by
    intro r hr
    apply hwidth
    rw [← hrecords]
    exact List.mem_map_of_mem hr
  have hfind : text.records.find? (fun r => r.fields.length !=
      ((text.records.map fun r => r.fields.length).head?).getD 0) = none := by
    rw [List.find?_eq_none]
    intro r hr
    cases hrs : text.records with
    | nil => rw [hrs] at hr; cases hr
    | cons first others =>
      have hfirst := hsame first (by rw [hrs]; exact List.mem_cons_self)
      simp [hsame r hr, hfirst]
  rw [hfind, hfault, hrecords]

end Lines

section Across

variable {α β : Type} {filler : α}

theorem across_map (f : α → β) (n : Nat) (columns : List (List α)) :
    (across filler n columns).map (List.map f) = across (f filler) n (columns.map (List.map f)) := by
  induction n generalizing columns with
  | zero => rfl
  | succ n ih =>
    have hheads : (columns.map (·.headD filler)).map f = (columns.map (List.map f)).map (·.headD (f filler)) := by
      simp [Function.comp_def, List.headD_eq_head?_getD]
    have htails : (columns.map List.tail).map (List.map f) = (columns.map (List.map f)).map List.tail := by
      simp [Function.comp_def]
    rw [across, across, List.map_cons, ih, hheads, htails]

theorem length_of_mem_across {n : Nat} {columns : List (List α)} :
    ∀ row ∈ across filler n columns, row.length = columns.length := by
  induction n generalizing columns with
  | zero => intro row hrow; cases hrow
  | succ n ih =>
    intro row hrow
    rcases List.mem_cons.mp hrow with rfl | hlater
    · exact List.length_map _
    · rw [ih row hlater, List.length_map]

theorem mem_of_mem_across {n : Nat} {columns : List (List α)} (h : ∀ column ∈ columns, column.length = n) :
    ∀ row ∈ across filler n columns, ∀ x ∈ row, ∃ column ∈ columns, x ∈ column := by
  induction n generalizing columns with
  | zero => intro row hrow; cases hrow
  | succ n ih =>
    intro row hrow x hx
    rcases List.mem_cons.mp hrow with rfl | hlater
    · obtain ⟨column, hcolumn, rfl⟩ := List.mem_map.mp hx
      refine ⟨column, hcolumn, ?_⟩
      cases column with
      | nil => exact absurd (h [] hcolumn) (by simp)
      | cons y column => exact List.mem_cons_self
    · have htails : ∀ column ∈ columns.map List.tail, column.length = n := by
        intro column hcolumn
        obtain ⟨whole, hwhole, rfl⟩ := List.mem_map.mp hcolumn
        rw [List.length_tail, h whole hwhole, Nat.add_sub_cancel]
      obtain ⟨column, hcolumn, hmem⟩ := ih htails row hlater x hx
      obtain ⟨whole, hwhole, rfl⟩ := List.mem_map.mp hcolumn
      exact ⟨whole, hwhole, List.mem_of_mem_tail hmem⟩

/-- The first fields of rows are the first column, and the others make up the rows of the other columns. -/
theorem across_cons (filler blank : α) {n : Nat} {column : List α} (hlength : column.length = n)
    (columns : List (List α)) :
    (across filler n (column :: columns)).map (·.headD blank) = column ∧
      (across filler n (column :: columns)).map List.tail = across filler n columns := by
  induction n generalizing column columns with
  | zero => exact ⟨(List.length_eq_zero_iff.mp hlength).symm, rfl⟩
  | succ n ih =>
    cases column with
    | nil => cases hlength
    | cons x column =>
      obtain ⟨hheads, htails⟩ := ih (Nat.succ.inj hlength) (columns.map List.tail)
      constructor
      · simpa [across] using hheads
      · simpa [across] using htails

theorem across_across (filler blank : α) {n : Nat} {columns : List (List α)}
    (h : ∀ column ∈ columns, column.length = n) :
    across blank columns.length (across filler n columns) = columns := by
  induction columns with
  | nil => rfl
  | cons column columns ih =>
    obtain ⟨hcolumn, hcolumns⟩ := List.forall_mem_cons.mp h
    obtain ⟨hheads, htails⟩ := across_cons filler blank hcolumn columns
    rw [List.length_cons, across, hheads, htails, ih hcolumns]

end Across

/-- A series whose values were written and read again, given the column that texts make. -/
def Series.reread (infer : List (Option Bytes) → Series) (s : Series) : Series :=
  infer ((s.entries.map Entry.shown).map fun t => if t = missingText then none else some t)

theorem Series.length_entries (s : Series) : s.entries.length = s.size := by
  cases s with
  | ints values => exact List.length_map _
  | floats values => exact List.length_map _
  | texts values => exact List.length_map _

namespace Frame

variable {f : Frame} (hsize : ∀ c ∈ f.columns, c.series.size = f.rowCount)

include hsize

theorem length_shown_columns :
    ∀ column ∈ f.columns.map fun c => c.series.entries.map Entry.shown, column.length = f.rowCount := by
  intro column hcolumn
  obtain ⟨c, hc, rfl⟩ := List.mem_map.mp hcolumn
  rw [List.length_map, Series.length_entries, hsize c hc]

omit hsize in
theorem shown_rows (f : Frame) : f.rows.map (List.map Entry.shown) =
    across missingText f.rowCount (f.columns.map fun c => c.series.entries.map Entry.shown) := by
  rw [Frame.rows, across_map, List.map_map]
  rfl

/-- The rows of a frame as texts make up its columns, each with the type that is found for it. -/
theorem ofRecords_shown (infer : List (Option Bytes) → Series) :
    ofRecords infer f.names (f.rows.map (List.map Entry.shown)) =
      ⟨f.columns.map fun c => ⟨c.name, c.series.reread infer⟩⟩ := by
  have hcolumns := across_across missingText [] (length_shown_columns hsize)
  rw [List.length_map] at hcolumns
  rw [ofRecords, shown_rows, names, List.length_map, hcolumns, List.zip_map', List.map_map]
  rfl

/-- What is shown of a frame has no carriage return if its names and entries have none. -/
theorem unbroken_shown (hnames : ∀ name ∈ f.names, carriageReturn ∉ name)
    (hentries : ∀ c ∈ f.columns, ∀ e ∈ c.series.entries, carriageReturn ∉ e.shown) :
    ∀ line ∈ f.names :: f.rows.map (List.map Entry.shown), ∀ field ∈ line, carriageReturn ∉ field := by
  rw [shown_rows]
  intro line hline field hfield
  rcases List.mem_cons.mp hline with rfl | hrow
  · exact hnames field hfield
  · obtain ⟨column, hcolumn, hmem⟩ := mem_of_mem_across (length_shown_columns hsize) line hrow field hfield
    obtain ⟨c, hc, rfl⟩ := List.mem_map.mp hcolumn
    obtain ⟨e, he, rfl⟩ := List.mem_map.mp hmem
    exact hentries c hc e he

omit hsize in
theorem length_shown_lines (f : Frame) :
    ∀ line ∈ f.names :: f.rows.map (List.map Entry.shown), line.length = f.columns.length := by
  rw [shown_rows]
  intro line hline
  rcases List.mem_cons.mp hline with rfl | hrow
  · exact List.length_map _
  · rw [length_of_mem_across line hrow]
    exact List.length_map _

end Frame

end StackMachine
