import Mathlib.Logic.Function.Basic
import StackMachine.Disassembly
import StackMachine.Proofs.ByteForm
import StackMachine.Proofs.SplitText
import StackMachine.Proofs.StatementText
import StackMachine.Text.HexBytes

namespace StackMachine

/-- A line of a listing as its text tells it. -/
structure ListingEntry where
  offset : Nat
  bytes : Bytes
  deriving DecidableEq

/-- The bytes that the text of a line stands for: the one of a data line, or those of an instruction. -/
def assembleText (text : Bytes) : Option Bytes :=
  if (utf8 "DB 0x").isPrefixOf text then
    match readHex (text.drop 5) with
    | .ok [b] => some [b]
    | _ => none
  else
    match parseLine text with
    | .ok (some s) => (Opcode.ofName? s.word).bind fun op => (encodeInstruction op.code s.operands).toOption
    | _ => none

/-- Reads a line of a listing: an offset, a colon and a blank, and a text. -/
def readListingLine (line : Bytes) : Option ListingEntry :=
  match line.takeWhile isDigitByte, line.dropWhile isDigitByte with
  | digit :: digits, colon :: blank :: text =>
    if colon = byte ':' ∧ blank = byte ' ' then
      (assembleText text).map fun bytes => ⟨digitsValue (digit :: digits), bytes⟩
    else none
  | _, _ => none

/-- Each entry begins where the one before it ended, from the first offset to the last. -/
def Partitions : (first : Nat) → List ListingEntry → (last : Nat) → Prop
  | first, [], last => first = last
  | first, entry :: entries, last =>
    entry.offset = first ∧ entry.bytes ≠ [] ∧ Partitions (first + entry.bytes.length) entries last

section Offsets

theorem digitsValue_offsetText (n : Nat) : digitsValue (offsetText n) = n := by
  rw [offsetText, paddedLeft, digitsValue_zeros, digitsValue_decimalNat]

theorem isDigitByte_of_mem_offsetText {n : Nat} {c : UInt8} (h : c ∈ offsetText n) : isDigitByte c = true := by
  rcases List.mem_append.mp h with hzero | hdigit
  · rw [List.eq_of_mem_replicate hzero]
    rfl
  · exact isDigitByte_of_mem_decimalNat hdigit

theorem readListingLine_eq (n : Nat) (text : Bytes) :
    readListingLine (offsetText n ++ utf8 ": " ++ text) = (assembleText text).map fun bytes => ⟨n, bytes⟩ := by
  have hcolon : utf8 ": " = [byte ':', byte ' '] := rfl
  have hline : offsetText n ++ utf8 ": " ++ text = offsetText n ++ byte ':' :: byte ' ' :: text := by
    rw [hcolon, List.append_assoc]
    rfl
  have hdigits : ∀ c ∈ offsetText n, isDigitByte c = true := fun c hc => isDigitByte_of_mem_offsetText hc
  have htake : (offsetText n ++ byte ':' :: byte ' ' :: text).takeWhile isDigitByte = offsetText n := by
    rw [List.takeWhile_append_of_pos hdigits]
    exact List.append_nil _
  have hdrop : (offsetText n ++ byte ':' :: byte ' ' :: text).dropWhile isDigitByte = byte ':' :: byte ' ' :: text := by
    rw [List.dropWhile_append_of_pos hdigits]
    rfl
  rw [hline, readListingLine, htake, hdrop]
  cases ho : offsetText n with
  | nil =>
    have hnil := List.append_eq_nil_iff.mp ho
    exact absurd hnil.2 (decimalNat_ne_nil n)
  | cons digit digits =>
    have hvalue : digitsValue (digit :: digits) = n := by rw [← ho, digitsValue_offsetText]
    simp only [hvalue, and_self, if_true]

end Offsets

section Items

theorem newline_not_mem_marks :
    ∀ mark ∈ [utf8 "DB 0x", utf8 ": ", utf8 "; ", utf8 " bytes"], newline ∉ mark := by decide +kernel

theorem Register.isWord_upper_name (r : Register) : upper r.name = r.name ∧ IsWord (upper r.name) := by
  cases r <;> exact ⟨by decide, by decide⟩

theorem Opcode.isWord_name (op : Opcode) : IsWord op.name := by
  cases op <;> decide

theorem Opcode.ofName?_upper_name (op : Opcode) : Opcode.ofName? (upper op.name) = some op := by
  cases op <;> decide

theorem not_data_lineText (op : Opcode) (operands : List Operand) :
    (utf8 "DB 0x").isPrefixOf (lineText op.name operands) = false := by
  rw [lineText_eq]
  cases op <;> rfl

/-- An operand that was read is written as it is read again. -/
theorem readOperands_own {kinds : List OperandKind} {bytes : Bytes} {offset : Nat} {operands : List Operand}
    (h : readOperands kinds bytes offset = .ok operands) : ∀ o ∈ operands, o.Readable ∧ o.uppercased = o := by
  induction kinds generalizing bytes offset operands with
  | nil =>
    cases h
    simp
  | cons kind kinds ih =>
    unfold readOperands at h
    cases kind with
    | register =>
      cases hr : Register.ofIndex? (bytes.headD 0).toNat with
      | none =>
        simp only [hr] at h
        cases h
      | some r =>
        simp only [hr] at h
        obtain ⟨_, ⟨⟩, h⟩ := bind_eq_ok_iff.mp h
        obtain ⟨rest, hrest, h⟩ := bind_eq_ok_iff.mp h
        cases h
        obtain ⟨hname, hword⟩ := r.isWord_upper_name
        exact List.forall_mem_cons.mpr ⟨⟨hword, congrArg Operand.reg hname⟩, ih hrest⟩
    | integer | target =>
      obtain ⟨_, ⟨⟩, h⟩ := bind_eq_ok_iff.mp h
      obtain ⟨rest, hrest, h⟩ := bind_eq_ok_iff.mp h
      cases h
      exact List.forall_mem_cons.mpr ⟨⟨trivial, rfl⟩, ih hrest⟩

theorem assembleText_instruction {offset : Nat} {first : UInt8} {rest : Bytes} {i : Instruction}
    (h : readInstruction offset first rest = .ok i) : assembleText i.text = some ((first :: rest).take i.op.size) := by
  obtain ⟨-, -, hread⟩ := readInstruction_eq_ok h
  obtain ⟨-, hencoded⟩ := encodeInstruction_read h
  have hown := readOperands_own hread
  have hsame : i.operands.map Operand.uppercased = i.operands :=
    (List.map_congr_left fun o ho => (hown o ho).2).trans (List.map_id _)
  have hparse := parse_lineText i.op.isWord_name fun o ho => (hown o ho).1
  rw [hsame] at hparse
  have hline : parseLine i.text = .ok (some ⟨upper i.op.name, i.operands, 1⟩) := by
    rw [parseLine, Instruction.text, hparse]
  rw [assembleText, Instruction.text, not_data_lineText, ← Instruction.text, hline]
  simp only [Bool.false_eq_true, if_false, Opcode.ofName?_upper_name, Option.bind_some, hencoded]
  rfl

theorem nibble?_hexDigit {d : Nat} (hd : d < 16) : nibble? (hexDigit d) = some (UInt8.ofNat d) := by
  obtain ⟨-, hvalue, hhex, -⟩ := hexDigit_spec d hd
  rw [nibble?, if_pos hhex, hvalue]
  rfl

theorem readHex_paddedHex (b : UInt8) : readHex (paddedHex 2 b.toNat) = .ok [b] := by
  have hb : b.toNat < 256 := b.toNat_lt
  have hbyte : UInt8.ofNat (b.toNat / 16) * 16 + UInt8.ofNat (b.toNat % 16) = b := by
    apply UInt8.toNat_inj.mp
    have hsixteen : (16 : UInt8).toNat = 16 := rfl
    rw [UInt8.toNat_add, UInt8.toNat_mul, UInt8.toNat_ofNat', UInt8.toNat_ofNat', hsixteen]
    omega
  have hhigh : nibble? (hexDigit (b.toNat / 16)) = _ := nibble?_hexDigit (by omega)
  have hlow : nibble? (hexDigit (b.toNat % 16)) = _ := nibble?_hexDigit (by omega)
  rw [paddedHex_two hb]
  simp only [readHex, hhigh, hlow, hbyte]

theorem data_spec (b : UInt8) : assembleText (utf8 "DB " ++ hexByte b) = some [b] ∧
    newline ∉ utf8 "DB " ++ hexByte b := by
  have hdata : utf8 "DB " ++ hexByte b = utf8 "DB 0x" ++ paddedHex 2 b.toNat := by
    rw [hexByte, ← List.append_assoc]
    rfl
  rw [hdata]
  constructor
  · have hdrop : (utf8 "DB 0x" ++ paddedHex 2 b.toNat).drop 5 = paddedHex 2 b.toNat := rfl
    rw [assembleText, if_pos (by simp), hdrop, readHex_paddedHex]
  · rw [List.mem_append]
    rintro (hmark | hdigit)
    · exact newline_not_mem_marks _ (by simp) hmark
    · cases isUpperHexByte_of_mem_paddedHex 2 _ hdigit

variable (offset : Nat) (first : UInt8) (rest : Bytes)

/-- A line stands for the bytes from its place on, as many as it takes up. -/
theorem assembleText_itemAt :
    assembleText (itemAt offset first rest).text = some ((first :: rest).take (itemAt offset first rest).size) ∧
      0 < (itemAt offset first rest).size ∧ (itemAt offset first rest).size ≤ (first :: rest).length := by
  unfold itemAt
  cases h : readInstruction offset first rest with
  | error error => exact ⟨(data_spec first).1, Nat.one_pos, Nat.succ_pos _⟩
  | ok i =>
    have hpos : 0 < i.op.size := by
      rw [Opcode.size_eq]
      omega
    exact ⟨assembleText_instruction h, hpos, (encodeInstruction_read h).1⟩

theorem newline_not_mem_itemAt : newline ∉ (itemAt offset first rest).text := by
  unfold itemAt
  cases h : readInstruction offset first rest with
  | error error => exact (data_spec first).2
  | ok i =>
    obtain ⟨-, -, hread⟩ := readInstruction_eq_ok h
    exact newline_not_mem_lineText i.op.isWord_name fun o ho => (readOperands_own hread o ho).1

end Items

/-- The text of a line without its end. -/
def ListingLine.row (line : ListingLine) : Bytes := offsetText line.offset ++ utf8 ": " ++ line.item.text

theorem listingFrom_skip (offset skip : Nat) (code : Bytes) :
    listingFrom offset skip code = listingFrom (offset + skip) 0 (code.drop skip) := by
  induction code generalizing offset skip with
  | nil => simp [listingFrom]
  | cons first rest ih =>
    cases skip with
    | zero => rfl
    | succ skip =>
      rw [listingFrom, ih, List.drop_succ_cons]
      congr 1
      omega

theorem listingFrom_cons (offset : Nat) (first : UInt8) (rest : Bytes) :
    listingFrom offset 0 (first :: rest) =
      ⟨offset, itemAt offset first rest⟩ ::
        listingFrom (offset + (itemAt offset first rest).size) 0
          ((first :: rest).drop (itemAt offset first rest).size) := by
  obtain ⟨-, hpos, -⟩ := assembleText_itemAt offset first rest
  obtain ⟨k, hk⟩ := Nat.exists_eq_add_of_lt hpos
  rw [listingFrom, listingFrom_skip, hk, List.drop_succ_cons]
  congr 2
  omega

theorem newline_not_mem_row {offset skip : Nat} {code : Bytes} :
    ∀ line ∈ listingFrom offset skip code, newline ∉ line.row := by
  induction code generalizing offset skip with
  | nil => simp [listingFrom]
  | cons first rest ih =>
    cases skip with
    | succ skip => exact ih
    | zero =>
      refine List.forall_mem_cons.mpr ⟨?_, ih⟩
      have hoffset : newline ∉ offsetText offset := fun h => by cases isDigitByte_of_mem_offsetText h
      have hcolon : newline ∉ utf8 ": " := newline_not_mem_marks _ (by simp)
      simp only [ListingLine.row, List.mem_append, hoffset, hcolon, newline_not_mem_itemAt, or_self, not_false_eq_true]

/-- The lines from an offset on are read back as the code from there on. The induction is on the length of the code,
since a line leaves as much of it as its own size says. -/
theorem exists_entries (offset : Nat) (code : Bytes) :
    ∃ entries, ((listingFrom offset 0 code).map ListingLine.row).mapM readListingLine = some entries ∧
      Partitions offset entries (offset + code.length) ∧ entries.flatMap ListingEntry.bytes = code := by
  induction hn : code.length using Nat.strongRecOn generalizing offset code with
  | ind n ih =>
    cases code with
    | nil =>
      subst hn
      exact ⟨[], rfl, rfl, rfl⟩
    | cons first rest =>
      obtain ⟨htext, hpos, hsize⟩ := assembleText_itemAt offset first rest
      rw [listingFrom_cons]
      generalize itemAt offset first rest = item at htext hpos hsize ⊢
      have hdropped : ((first :: rest).drop item.size).length = n - item.size := by rw [List.length_drop, hn]
      have htaken : ((first :: rest).take item.size).length = item.size := List.length_take_of_le hsize
      obtain ⟨entries, hread, hpartition, hbytes⟩ := ih (n - item.size) (by omega) (offset + item.size) _ hdropped
      refine ⟨⟨offset, (first :: rest).take item.size⟩ :: entries, ?_, ⟨rfl, ?_, ?_⟩, ?_⟩
      · have hrow : readListingLine (ListingLine.row ⟨offset, item⟩) = some ⟨offset, (first :: rest).take item.size⟩ := by
          rw [ListingLine.row, readListingLine_eq, htext]
          rfl
        rw [List.map_cons, List.mapM_cons, hrow, hread]
        rfl
      · exact List.ne_nil_of_length_pos (Nat.lt_of_lt_of_eq hpos htaken.symm)
      · have hend : offset + item.size + (n - item.size) = offset + n := by omega
        rw [hend] at hpartition
        simpa only [htaken] using hpartition
      · rw [List.flatMap_cons, hbytes, List.take_append_drop]

def listingHeader (code : Bytes) : Bytes := utf8 "; " ++ decimalNat code.length ++ utf8 " bytes"

theorem newline_not_mem_listingHeader (code : Bytes) : newline ∉ listingHeader code := by
  have hdigits : newline ∉ decimalNat code.length := fun h => by cases isDigitByte_of_mem_decimalNat h
  have hbefore : newline ∉ utf8 "; " := newline_not_mem_marks _ (by simp)
  have hafter : newline ∉ utf8 " bytes" := newline_not_mem_marks _ (by simp)
  simp only [listingHeader, List.mem_append, hdigits, hbefore, hafter, or_self, not_false_eq_true]

theorem splitOn_disassemble (code : Bytes) :
    splitOn newline (disassemble code) =
      listingHeader code :: ((listing code).map ListingLine.row ++ [[]]) := by
  have hend : utf8 " bytes\n" = utf8 " bytes" ++ [newline] := rfl
  have hrows : disassemble code =
      (listingHeader code :: (listing code).map ListingLine.row).flatMap (· ++ [newline]) := by
    rw [disassemble, hend, List.flatMap_cons, List.flatMap_map, listingHeader]
    simp only [List.append_assoc]
    rfl
  have hfree : ∀ row ∈ listingHeader code :: (listing code).map ListingLine.row, newline ∉ row :=
    List.forall_mem_cons.mpr ⟨newline_not_mem_listingHeader code, List.forall_mem_map.mpr newline_not_mem_row⟩
  rw [hrows, ← List.append_nil (List.flatMap ..), splitOn_terminated hfree List.not_mem_nil]
  rfl

/-- A listing loses nothing of the code. After a header, and each ended by a line feed, come lines that can all be read
back; their offsets begin at zero, every line begins where the bytes of the one before it end, the last one ends with
the code, and the bytes are those of the code. So different codes have different listings. -/
theorem disassembly_lossless :
    (∀ code : Bytes, ∃ lines entries,
      splitOn newline (disassemble code) = listingHeader code :: (lines ++ [[]]) ∧
      lines.mapM readListingLine = some entries ∧
      Partitions 0 entries code.length ∧
      entries.flatMap ListingEntry.bytes = code) ∧
    Function.Injective disassemble := by
  have hread : ∀ code : Bytes, ∃ entries,
      ((listing code).map ListingLine.row).mapM readListingLine = some entries ∧
        Partitions 0 entries code.length ∧ entries.flatMap ListingEntry.bytes = code := by
    intro code
    obtain ⟨entries, hentries⟩ := exists_entries 0 code
    rw [Nat.zero_add] at hentries
    exact ⟨entries, hentries⟩
  refine ⟨fun code => ?_, fun code code' heq => ?_⟩
  · obtain ⟨entries, hentries⟩ := hread code
    exact ⟨_, entries, splitOn_disassemble code, hentries⟩
  · have hlines := congrArg (splitOn newline) heq
    rw [splitOn_disassemble, splitOn_disassemble] at hlines
    have hrows := List.append_cancel_right (List.cons.inj hlines).2
    obtain ⟨entries, hentries, -, hbytes⟩ := hread code
    obtain ⟨entries', hentries', -, hbytes'⟩ := hread code'
    rw [hrows, hentries'] at hentries
    rw [← hbytes, ← hbytes', Option.some.inj hentries]

/-- An instruction cut off by the end of the code, after one whose register does not exist. -/
example : disassemble [1, 7, 9, 12, 1] =
    utf8 "; 5 bytes\n0000: PSH 7\n0002: DB 0x09\n0003: DB 0x0C\n0004: DB 0x01\n" := by decide +kernel

end StackMachine
