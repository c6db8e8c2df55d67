import StackMachine.CommandLine
import StackMachine.Proofs.CsvLibrary
import StackMachine.Proofs.LineByLine
import StackMachine.Proofs.RecordedRows

namespace StackMachine

namespace Folder

variable {f : Folder} {path : Bytes}

/-- A file can be put where the path leads. -/
structure Writable (f : Folder) (path : Bytes) : Prop where
  reached : f.blocked? path = none
  isFile : f.hasFolder (parts path) = false
  named : asksFolder path = false

instance (f : Folder) (path : Bytes) : Decidable (f.Writable path) :=
  decidable_of_iff (f.blocked? path = none ∧ f.hasFolder (parts path) = false ∧ asksFolder path = false)
    ⟨fun h => ⟨h.1, h.2.1, h.2.2⟩, fun h => ⟨h.reached, h.isFile, h.named⟩⟩

theorem slash_not_mem_parts : ∀ part ∈ parts path, byte '/' ∉ part := by
  have hfollow : ∀ steps seen : List Bytes, (∀ part ∈ steps, byte '/' ∉ part) → (∀ part ∈ seen, byte '/' ∉ part) →
      ∀ part ∈ steps.foldl follow seen, byte '/' ∉ part := by
    intro steps
    induction steps with
    | nil => exact fun _ _ hseen => hseen
    | cons step rest ih =>
      intro seen hsteps hseen
      obtain ⟨hstep, hrest⟩ := List.forall_mem_cons.mp hsteps
      apply ih _ hrest
      unfold follow
      split
      next => exact hseen
      next =>
        split
        next => exact fun part hpart => hseen part ((List.dropLast_sublist _).mem hpart)
        next => exact List.forall_mem_append.mpr ⟨hseen, List.forall_mem_singleton.mpr hstep⟩
  apply hfollow
  · exact fun part hpart => not_mem_of_mem_splitOn hpart
  · split
    next => simp
    next => simp

theorem splitOn_key (h : parts path ≠ []) : splitOn (byte '/') (key path) = parts path := by
  rw [splitOn_eq]
  exact List.splitOn_intercalate (byte '/') slash_not_mem_parts h

theorem replace_fst (k content : Bytes) (file : Bytes × Bytes) :
    (if file.1 = k then (k, content) else file).1 = file.1 := by
  split
  next h => exact h.symm
  next => rfl

theorem find?_put (f : Folder) (k content : Bytes) : (f.put k content).find? k = some content := by
  unfold put
  split
  next h =>
    have hsame : ((fun file : Bytes × Bytes => file.1 == k) ∘ fun file => if file.1 = k then (k, content) else file) =
        fun file => file.1 == k := by
      funext file
      exact congrArg (· == k) (replace_fst k content file)
    rw [find?, Option.isSome_map] at h
    obtain ⟨file, hfile⟩ := Option.isSome_iff_exists.mp h
    have hkey : file.1 = k := by simpa using List.find?_some hfile
    simp only [find?, List.find?_map, hsame, hfile, Option.map_some, if_pos hkey]
  next h =>
    rw [find?, Option.isSome_map, Bool.not_eq_true, Option.isSome_eq_false_iff, Option.isNone_iff_eq_none] at h
    simp [find?, List.find?_append, h]

/-- A file brings the folders of its path and no others. -/
theorem hasFolder_put (f : Folder) (k content : Bytes) (dir : List Bytes) :
    (f.put k content).hasFolder dir = true ↔
      f.hasFolder dir = true ∨ dir.isPrefixOf (splitOn (byte '/') k).dropLast = true := by
  unfold put
  split
  next h =>
    rw [find?, Option.isSome_map, List.find?_isSome] at h
    obtain ⟨file, hmem, hkey⟩ := h
    have hsame : ((fun file : Bytes × Bytes => dir.isPrefixOf (splitOn (byte '/') file.1).dropLast) ∘
        fun file => if file.1 = k then (k, content) else file) =
        fun file => dir.isPrefixOf (splitOn (byte '/') file.1).dropLast := by
      funext file
      exact congrArg (fun name => dir.isPrefixOf (splitOn (byte '/') name).dropLast) (replace_fst k content file)
    simp only [hasFolder, List.any_map, hsame]
    refine ⟨.inl, fun h => h.elim id fun hdir => ?_⟩
    have hany : f.files.any (fun file => dir.isPrefixOf (splitOn (byte '/') file.1).dropLast) = true :=
      List.any_eq_true.mpr ⟨file, hmem, by rw [beq_iff_eq.mp hkey]; exact hdir⟩
    rw [hany, Bool.or_true]
  next =>
    simp only [hasFolder, List.any_append, List.any_cons, List.any_nil, Bool.or_false, Bool.or_eq_true]
    simp only [or_assoc]

theorem blocked?_eq_none_iff : f.blocked? path = none ↔ path ≠ [] ∧ f.hasFolder (parts path).dropLast = true := by
  unfold blocked?
  grind

theorem Writable.read_put (h : f.Writable path) (content : Bytes) :
    (f.put (key path) content).read path = .ok content := by
  obtain ⟨hpath, hdir⟩ := blocked?_eq_none_iff.mp h.reached
  have hreached : (f.put (key path) content).blocked? path = none :=
    blocked?_eq_none_iff.mpr ⟨hpath, (hasFolder_put ..).mpr (.inl hdir)⟩
  have hparts : parts path ≠ [] := by
    intro hnil
    have hfile := h.isFile
    rw [hnil] at hfile
    cases hfile
  have hfile : (f.put (key path) content).hasFolder (parts path) = false := by
    rw [← Bool.not_eq_true, hasFolder_put, splitOn_key hparts, List.isPrefixOf_iff_prefix]
    rintro (hold | hfolder)
    · rw [h.isFile] at hold
      cases hold
    · -- a path is not a beginning of the folder it lies in
      have hlength := hfolder.length_le
      have hpos := List.length_pos_iff.mpr hparts
      rw [List.length_dropLast] at hlength
      omega
  unfold read
  rw [hreached, hfile, find?_put, h.named]
  rfl

theorem Writable.write (h : f.Writable path) (content : Bytes) : f.write path content = .ok (f.put (key path) content) := by
  unfold Folder.write
  rw [h.reached, h.isFile, h.named]
  rfl

end Folder

section Tables

/-- The rows of a frame as texts, where a missing value has none. -/
def Frame.cells (f : Frame) : List (List (Option Bytes)) := f.rows.map (List.map Entry.text?)

def traceNames : List Bytes := [utf8 "seq", utf8 "event", utf8 "op", utf8 "target", utf8 "value", utf8 "detail"]

variable {rows : List TraceRow}

/-- The only row is about an operation whose name reads as a number or a truth value. -/
def LoneNumber (rows : List TraceRow) : Prop := ∃ row, rows = [row] ∧ row.op ∈ numberWords

theorem carriageReturn_not_mem_ints (values : List (Option Int64)) :
    ∀ e ∈ (Series.ints values).entries, carriageReturn ∉ e.shown := by
  have hmissing : carriageReturn ∉ missingText := by decide +kernel
  refine List.forall_mem_map.mpr fun v _ => ?_
  cases v with
  | none => exact hmissing
  | some v => exact carriageReturn_not_mem_value v

theorem carriageReturn_not_mem_texts {get : TraceRow → Bytes} (h : ∀ row ∈ rows, carriageReturn ∉ get row) :
    ∀ e ∈ (Series.texts ((rows.map get).map some)).entries, carriageReturn ∉ e.shown :=
  List.forall_mem_map.mpr (List.forall_mem_map.mpr (List.forall_mem_map.mpr h))

/-- A trace that is written and read again is the same up to the type of its operations. -/
theorem Frame.readCsv_ofTrace [FrameFormats] {lib : CsvLibrary} (granted : lib.Serves) (hrows : rows ≠ [])
    (h : ∀ row ∈ rows, row.Framed ∧ carriageReturn ∉ row.op) :
    FrameFormats.readCsv none (FrameFormats.writeCsv none (Frame.ofTrace rows)).text =
      .ok ⟨(Frame.ofTrace rows).columns.set 2
        ⟨utf8 "op", (Series.texts ((rows.map TraceRow.op).map some)).reread lib.reader.infer⟩⟩ := by
  obtain ⟨row, hrow⟩ := List.exists_mem_of_ne_nil rows hrows
  have htexts : ∀ get : TraceRow → Bytes, (∀ row ∈ rows, Kept (get row)) →
      (Series.texts ((rows.map get).map some)).reread lib.reader.infer = .texts ((rows.map get).map some) := by
    intro get hget
    apply granted.numbers.reread_texts
    · exact List.forall_mem_map.mpr fun row hrow => (hget row hrow).present
    · exact ⟨get row, List.mem_map_of_mem hrow, (hget row hrow).toPlain⟩
  have hevent := htexts TraceRow.event fun row hrow => (h row hrow).1.event
  have htarget := htexts TraceRow.target fun row hrow => (h row hrow).1.target
  have hdetail := htexts TraceRow.detail fun row hrow => (h row hrow).1.detail
  rw [granted.readCsv_writeCsv]
  · simp only [Frame.ofTrace, intColumn, textColumn, List.map_cons, List.map_nil, granted.numbers.reread_ints, hevent,
      htarget, hdetail]
    rfl
  · exact Nat.le_of_ble_eq_true rfl
  · simp [Frame.ofTrace, Frame.rowCount, intColumn, textColumn, Series.size]
  · simpa [Frame.ofTrace, Frame.rowCount, intColumn, Series.size] using hrows
  · have hnames : ∀ name ∈ traceNames, carriageReturn ∉ name := by decide +kernel
    exact hnames
  · simp only [Frame.ofTrace, intColumn, textColumn, List.forall_mem_cons, List.not_mem_nil, false_imp_iff,
      implies_true, and_true]
    exact ⟨carriageReturn_not_mem_ints _, carriageReturn_not_mem_texts fun row hrow => (h row hrow).1.event.unbroken,
      carriageReturn_not_mem_texts fun row hrow => (h row hrow).2,
      carriageReturn_not_mem_texts fun row hrow => (h row hrow).1.target.unbroken, carriageReturn_not_mem_ints _,
      carriageReturn_not_mem_texts fun row hrow => (h row hrow).1.detail.unbroken⟩

theorem FromScript.framed (h : FromScript rows) :
    ∀ row ∈ rows, row.Framed ∧ carriageReturn ∉ row.op ∧ row.op ≠ missingText := by
  obtain ⟨tidy, last, rfl, htidy, hlast⟩ := h
  intro row hmem
  rcases List.mem_append.mp hmem with hrow | hrow
  · have hwhole := htidy row hrow
    exact ⟨hwhole.toFramed, hwhole.op.unbroken, hwhole.op.present⟩
  · rcases hlast with rfl | ⟨final, rfl, hforeign⟩
    · cases hrow
    · rw [List.mem_singleton.mp hrow]
      exact ⟨hforeign.toFramed, hforeign.unbroken, hforeign.capital.ne_of_small rfl⟩

/-- One operation that is no number keeps the column from being read as numbers. -/
theorem FromScript.reread_ops {reader : NumberReader} (hr : reader.Standard) (h : FromScript rows) (hrows : rows ≠ [])
    (hlone : ¬ LoneNumber rows) :
    (Series.texts ((rows.map TraceRow.op).map some)).reread reader.infer = .texts ((rows.map TraceRow.op).map some) := by
  have hpresent : ∀ text ∈ rows.map TraceRow.op, text ≠ missingText :=
    List.forall_mem_map.mpr fun row hrow => (h.framed row hrow).2.2
  have hplain : ∃ row ∈ rows, Plain row.op := by
    obtain ⟨tidy, last, rfl, htidy, hlast⟩ := h
    cases tidy with
    | cons row rest => exact ⟨row, List.mem_cons_self, (htidy row List.mem_cons_self).op.toPlain⟩
    | nil =>
      rcases hlast with rfl | ⟨row, rfl, hforeign⟩
      · exact absurd rfl hrows
      · exact ⟨row, List.mem_cons_self, hforeign.capital.plain_iff.mpr fun hmem => hlone ⟨row, rfl, hmem⟩⟩
  obtain ⟨row, hrow, hop⟩ := hplain
  exact hr.reread_texts hpresent ⟨row.op, List.mem_map_of_mem hrow, hop⟩

theorem cells_ne_of_loneNumber {reader : NumberReader} (hr : reader.Standard) (h : LoneNumber rows) :
    Frame.cells ⟨(Frame.ofTrace rows).columns.set 2
        ⟨utf8 "op", (Series.texts ((rows.map TraceRow.op).map some)).reread reader.infer⟩⟩ ≠
      (Frame.ofTrace rows).cells := by
  obtain ⟨row, rfl, hop⟩ := h
  have hdiffers := hr.reread_numberWord row.op hop
  intro hsame
  simp only [Frame.cells, Frame.rows, Frame.rowCount, Frame.ofTrace, intColumn, textColumn, List.map_cons, List.map_nil,
    List.set_cons_succ, List.set_cons_zero, List.head?_cons, Option.getD_some, Series.size, List.length_cons,
    List.length_nil, across, List.cons.injEq, and_true] at hsame
  exact hdiffers hsame.2.2

end Tables

theorem Frame.load_csv [FrameFormats] {folder : Folder} {path text : Bytes} {frame : Frame}
    (hpath : Format.ofPath path = .ok .csv) (htext : folder.read path = .ok text)
    (hread : FrameFormats.readCsv none text = .ok frame) (hcolumns : frame.columns ≠ []) :
    Frame.load none folder path = .ok frame := by
  have hfilled : frame.filled = .ok frame := by
    rw [Frame.filled, if_neg]
    simpa using hcolumns
  unfold Frame.load
  rw [hpath, htext]
  show FrameFormats.readCsv none text >>= Frame.filled = _
  rw [hread]
  exact hfilled

theorem traceCommand_csv [FrameFormats] {folder : Folder} {path : Bytes} {frame : Frame} {arguments more : List Bytes}
    {given : GivenFlags} (hload : Frame.load none folder path = .ok frame)
    (hflags : parseFlags traceFlags arguments = .ok (given, path :: more))
    (hformat : Format.ofName ((given.text? "format").getD (utf8 "table")) = .ok .csv)
    (hwritten : (FrameFormats.writeCsv none frame).failure = none) :
    traceCommand folder arguments = { folder, out := (FrameFormats.writeCsv none frame).text } := by
  unfold traceCommand withFlags
  rw [hflags]
  dsimp only
  rw [hformat]
  dsimp only
  rw [hload]
  show Finished.ofWritten folder (FrameFormats.writeCsv none frame) = _
  rw [Finished.ofWritten, hwritten, Option.map_none]

/-- The trace of a script that was saved as comma separated values is loaded with its names and rows. Texts and missing
values are those that were recorded, and printed they are the file again, unless the trace has a single row whose
operation reads as a number; then its name alone comes back as something else. Of the library this takes that it quotes
fields, writes missing values and reads columns as it says. -/
theorem saved_trace_loads_back [FrameFormats] {lib : CsvLibrary} (granted : lib.Serves) (o : ScriptOptions)
    (source : Bytes) (limit : Int) (folder : Folder) (path : Bytes) (hrows : (recorded o source limit).rows ≠ #[])
    (hpath : Format.ofPath path = .ok .csv) (hfolder : folder.Writable path) :
    ∃ saved loaded,
      (recorded o source limit).frame.save none folder path Format.csv.text = (saved, none) ∧
      saved.read path = .ok (FrameFormats.writeCsv none (recorded o source limit).frame).text ∧
      Frame.load none saved path = .ok loaded ∧
      loaded.names = traceNames ∧ loaded.rowCount = (recorded o source limit).rows.size ∧
      (∃ ops, loaded.columns = (recorded o source limit).frame.columns.set 2 ⟨utf8 "op", ops⟩) ∧
      (loaded.cells = (recorded o source limit).frame.cells ↔ ¬ LoneNumber (recorded o source limit).rows.toList) ∧
      (¬ LoneNumber (recorded o source limit).rows.toList → loaded = (recorded o source limit).frame ∧
        ∀ arguments given more, parseFlags traceFlags arguments = .ok (given, path :: more) →
          Format.ofName ((given.text? "format").getD (utf8 "table")) = .ok .csv →
          traceCommand saved arguments =
            { folder := saved, out := (FrameFormats.writeCsv none (recorded o source limit).frame).text }) := by
  have hscript := fromScript_recorded o source limit
  have hne : (recorded o source limit).rows.toList ≠ [] := fun h => hrows (Array.toList_eq_nil_iff.mp h)
  generalize recorded o source limit = r at hscript hne
  have hwritten : (FrameFormats.writeCsv none r.frame).failure = none := by rw [granted.exported]
  have hread := hfolder.read_put (FrameFormats.writeCsv none r.frame).text
  have hload : Frame.load none (folder.put (Folder.key path) (FrameFormats.writeCsv none r.frame).text) path =
      .ok ⟨r.frame.columns.set 2
        ⟨utf8 "op", (Series.texts ((r.rows.toList.map TraceRow.op).map some)).reread lib.reader.infer⟩⟩ := by
    refine Frame.load_csv hpath hread (Frame.readCsv_ofTrace granted hne fun row hrow => ?_) ?_
    · exact ⟨(hscript.framed row hrow).1, (hscript.framed row hrow).2.1⟩
    · simp [Recorder.frame, Frame.ofTrace]
  have hsame : ¬ LoneNumber r.rows.toList → (⟨r.frame.columns.set 2
      ⟨utf8 "op", (Series.texts ((r.rows.toList.map TraceRow.op).map some)).reread lib.reader.infer⟩⟩ : Frame) =
        r.frame := by
    intro hlone
    rw [hscript.reread_ops granted.numbers hne hlone]
    rfl
  refine ⟨_, _, ?_, hread, hload, rfl, ?_, ⟨_, rfl⟩, ⟨?_, ?_⟩, ?_⟩
  · have hcontent : r.frame.fileContent none Format.csv.text = FrameFormats.writeCsv none r.frame := rfl
    rw [Frame.save, hcontent, hfolder.write, hwritten]
  · simp [Frame.rowCount, Recorder.frame, Frame.ofTrace, intColumn, Series.size]
  · exact fun hcells hlone => cells_ne_of_loneNumber granted.numbers hlone hcells
  · intro hlone
    rw [hsame hlone]
  · intro hlone
    refine ⟨hsame hlone, ?_⟩
    intro arguments given more hflags hformat
    rw [hsame hlone] at hload
    exact traceCommand_csv hload hflags hformat hwritten

/-- After a row of another operation the unknown word `TRUE` stays a word. -/
theorem saved_trace_loads_back_after_push : ∃ saved,
    (recorded {} (utf8 "psh 4\ntrue\n") 0).frame.save none {} (utf8 "t.csv") Format.csv.text = (saved, none) ∧
      Frame.load none saved (utf8 "t.csv") = .ok (recorded {} (utf8 "psh 4\ntrue\n") 0).frame ∧
      traceCommand saved [utf8 "-format", utf8 "csv", utf8 "t.csv"] =
        { folder := saved, out := (recorded {} (utf8 "psh 4\ntrue\n") 0).frame.csv } := by
  have hsize : (recorded {} (utf8 "psh 4\ntrue\n") 0).rows.toList.length ≠ 1 := by decide +kernel
  have hlone : ¬ LoneNumber (recorded {} (utf8 "psh 4\ntrue\n") 0).rows.toList :=
    fun ⟨row, hrow, _⟩ => hsize (congrArg List.length hrow)
  obtain ⟨saved, loaded, hsave, -, hload, -, -, -, -, hsame⟩ := saved_trace_loads_back serves_plainLibrary {}
    (utf8 "psh 4\ntrue\n") 0 {} (utf8 "t.csv") (by decide +kernel) (by decide +kernel) (by decide +kernel)
  obtain ⟨rfl, hprint⟩ := hsame hlone
  refine ⟨saved, hsave, hload, ?_⟩
  exact hprint _ [(utf8 "format", .text (utf8 "csv"))] [] (by decide +kernel) (by decide +kernel)

/-- A script whose first word is `true` has one row, about the operation `TRUE`, which is loaded as the number one. -/
theorem saved_trace_true_is_one : ∃ saved loaded,
    (recorded {} (utf8 "true\n") 0).rows ≠ #[] ∧
      (recorded {} (utf8 "true\n") 0).frame.save none {} (utf8 "t.csv") Format.csv.text = (saved, none) ∧
      Frame.load none saved (utf8 "t.csv") = .ok loaded ∧
      loaded.cells ≠ (recorded {} (utf8 "true\n") 0).frame.cells ∧
      saved.read (utf8 "t.csv") = .ok (recorded {} (utf8 "true\n") 0).frame.csv ∧
      (traceCommand saved [utf8 "-format", utf8 "csv", utf8 "t.csv"]).out ≠
        (recorded {} (utf8 "true\n") 0).frame.csv := by
  refine ⟨((recorded {} (utf8 "true\n") 0).frame.save none {} (utf8 "t.csv") Format.csv.text).1,
    ⟨(recorded {} (utf8 "true\n") 0).frame.columns.set 2 (intColumn "op" [1])⟩, ?_, ?_, ?_, ?_, ?_, ?_⟩
  · decide +kernel
  · exact Prod.ext rfl (by decide +kernel)
  · decide +kernel
  · decide +kernel
  · decide +kernel
  · decide +kernel

end StackMachine
