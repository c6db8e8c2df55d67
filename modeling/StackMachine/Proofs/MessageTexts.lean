import StackMachine.Proofs.ColumnTypes
import StackMachine.Proofs.Glyphs

namespace StackMachine

/-- A text that comes back from a table it was saved in. -/
structure Kept (text : Bytes) : Prop extends Plain text where
  unbroken : carriageReturn ∉ text

instance (text : Bytes) : Decidable (Kept text) :=
  decidable_of_iff (Plain text ∧ carriageReturn ∉ text) ⟨fun h => ⟨h.1, h.2⟩, fun h => ⟨h.toPlain, h.unbroken⟩⟩

theorem kept_of_mem {text : Bytes} {c : UInt8} (hc : c ∈ text) (hout : isNumberByte c = false)
    (unbroken : carriageReturn ∉ text) : Kept text :=
  ⟨plain_of_mem hc hout, unbroken⟩

section Numbers

theorem carriageReturn_not_mem_decimalNat (n : Nat) : carriageReturn ∉ decimalNat n := by
  intro hmem
  cases isDigitByte_of_mem_decimalNat hmem

theorem carriageReturn_not_mem_decimal (i : Int) : carriageReturn ∉ decimal i := by
  cases i with
  | ofNat n => exact carriageReturn_not_mem_decimalNat n
  | negSucc n =>
    intro hmem
    rcases List.mem_cons.mp hmem with hminus | hdigit
    · cases hminus
    · exact carriageReturn_not_mem_decimalNat _ hdigit

theorem carriageReturn_not_mem_value (v : Int64) : carriageReturn ∉ value v := carriageReturn_not_mem_decimal v.toInt

theorem digitChar_unbroken : ∀ d < 16, byte (Nat.digitChar d) ≠ carriageReturn := by decide +kernel

theorem carriageReturn_not_mem_escapeDigits (width n : Nat) : carriageReturn ∉ escapeDigits width n := by
  rw [escapeDigits, paddedLeft, List.mem_append, List.mem_replicate]
  rintro (⟨-, hzero⟩ | hmem)
  · cases hzero
  · obtain ⟨c, hc, heq⟩ := List.mem_map.mp hmem
    obtain ⟨d, hd, rfl⟩ := exists_digit_of_mem_toDigits (by decide) hc
    exact digitChar_unbroken d hd heq

theorem carriageReturn_not_mem_hexValue (v : Int64) : carriageReturn ∉ hexValue v := by
  have hpadded : carriageReturn ∉ paddedHex 4 (magnitude v).toNat := fun hmem => by
    cases isUpperHexByte_of_mem_paddedHex 4 _ hmem
  unfold hexValue
  rw [List.mem_append, List.mem_append]
  rintro ((hsign | hmark) | hmem)
  · split at hsign
    next => exact absurd hsign (by decide)
    next => cases hsign
  · exact absurd hmark (by decide)
  · exact hpadded hmem

theorem kept_hexValue (v : Int64) : Kept (hexValue v) := by
  have hupper : ∀ d : UInt8, isUpperHexByte d = true → d ≠ byte 'p' ∧ d ≠ byte 'P' := forall_byte (by decide +kernel)
  have hunsigned : (splitSign (hexValue v)).2 = byte '0' :: byte 'x' :: paddedHex 4 (magnitude v).toNat := by
    unfold hexValue
    split
    next => rfl
    next => rfl
  refine ⟨plain_of_hexadecimal hunsigned fun d hd => ?_, carriageReturn_not_mem_hexValue v⟩
  exact hupper d (isUpperHexByte_of_mem_paddedHex 4 _ hd)

theorem kept_stackCellText (i : Int) : Kept (stackCellText i) := by
  refine kept_of_mem (c := byte '[') ?_ (by decide) ?_
  · simp only [stackCellText, List.mem_append]
    exact .inl (.inl (by decide))
  · simp +decide [stackCellText, carriageReturn_not_mem_decimal]

end Numbers

section Quoting

theorem carriageReturn_not_mem_escapedCode (code : Nat) : carriageReturn ∉ escapedCode code := by
  unfold escapedCode
  split
  all_goals try decide
  next =>
    split
    next => simp +decide [carriageReturn_not_mem_escapeDigits]
    next =>
      split
      next => simp +decide [carriageReturn_not_mem_escapeDigits]
      next => simp +decide [carriageReturn_not_mem_escapeDigits]

/-- A printable character is not the carriage return, and no other one has its byte. -/
theorem carriageReturn_not_mem_printable {c : Char} (h : isPrintable c.toNat = true) :
    carriageReturn ∉ String.utf8EncodeChar c := by
  have hne : c.toNat ≠ 13 := by
    intro heq
    rw [heq] at h
    exact absurd h (by decide +kernel)
  have hvalid : c.toNat.isValidChar := c.valid
  have hchar : Char.ofNat c.toNat = c := Char.ofNat_toNat c
  rw [← hchar]
  by_cases hascii : c.toNat ≤ 0x7F
  · rw [utf8EncodeChar_ofNat hvalid, if_pos hascii, List.mem_singleton]
    intro heq
    have htoNat := congrArg UInt8.toNat heq
    rw [UInt8.toNat_ofNat_of_lt' (show c.toNat < 256 by omega)] at htoNat
    exact hne htoNat.symm
  · intro hmem
    rcases (utf8EncodeChar_beyond (show 0x80 ≤ c.toNat by omega)).2 _ hmem with hzero | hbig
    · exact absurd hzero (by decide)
    · exact absurd hbig (by decide)

theorem carriageReturn_not_mem_quoted (text : Bytes) : carriageReturn ∉ quoted text := by
  have hglyph : ∀ g : Glyph, carriageReturn ∉ quotedGlyph g := by
    intro g
    cases g with
    | stray b => simp +decide [quotedGlyph, carriageReturn_not_mem_escapeDigits]
    | char c =>
      rw [quotedGlyph]
      split
      next hmark =>
        simp only [Bool.or_eq_true, beq_iff_eq] at hmark
        rcases hmark with rfl | rfl <;> decide
      next =>
        split
        next hprintable => exact carriageReturn_not_mem_printable hprintable
        next => exact carriageReturn_not_mem_escapedCode _
  have hquote : carriageReturn ≠ byte '"' := by decide
  simp [quoted, hglyph, hquote]

end Quoting

theorem kept_words : (∀ op ∈ Opcode.all, Kept op.name ∧ carriageReturn ∉ op.definition.signature) ∧
    (∀ r ∈ Register.all, Kept r.name) ∧
    ∀ mark ∈ [utf8 "halted", utf8 "pushed", utf8 "popped", utf8 "result"], Kept mark := by
  decide +kernel

theorem kept_opcodeName (op : Opcode) : Kept op.name :=
  (kept_words.1 op (by cases op <;> decide)).1

theorem kept_registerName (r : Register) : Kept r.name :=
  kept_words.2.1 r (by cases r <;> decide)

section Causes

variable {α β : Type}

/-- What the failures of a check say has no carriage return. -/
def Unbroken (r : Except Cause α) : Prop := ∀ cause, r = .error cause → carriageReturn ∉ cause.detail

theorem unbroken_ok (a : α) : Unbroken (.ok a) := nofun

theorem unbroken_error {cause : Cause} (h : carriageReturn ∉ cause.detail) : Unbroken (.error cause : Except Cause α) := by
  rintro _ ⟨⟩
  exact h

theorem Unbroken.bind {r : Except Cause α} {f : α → Except Cause β} (hr : Unbroken r) (hf : ∀ a, Unbroken (f a)) :
    Unbroken (r >>= f) := by
  cases r with
  | ok a => exact hf a
  | error cause => exact unbroken_error (hr cause rfl)

theorem unbroken_register (o : Operand) (position : Nat) : Unbroken (o.register position) := by
  cases o with
  | imm v =>
    apply unbroken_error
    simp +decide [Cause.detail, carriageReturn_not_mem_decimalNat, carriageReturn_not_mem_value]
  | reg name =>
    rw [Operand.register]
    cases Register.ofName? name with
    | some r => exact unbroken_ok r
    | none => exact unbroken_error (carriageReturn_not_mem_quoted name)

theorem unbroken_integer {o : Operand} (h : ∀ name, o = .reg name → carriageReturn ∉ name) (position : Nat)
    (wanted : OperandKind) : Unbroken (o.integer position wanted) := by
  cases o with
  | imm v => exact unbroken_ok v
  | reg name =>
    apply unbroken_error
    have hname := h name rfl
    have hwanted : carriageReturn ∉ wanted.text := by cases wanted <;> decide
    simp +decide [Cause.detail, carriageReturn_not_mem_decimalNat, hname, hwanted]

theorem unbroken_ofOperands {operands : List Operand} (h : ∀ name, .reg name ∈ operands → carriageReturn ∉ name)
    (op : Opcode) : Unbroken (Action.ofOperands op operands) := by
  have hinteger : ∀ o ∈ operands, ∀ position wanted, Unbroken (o.integer position wanted) := by
    intro o ho position wanted
    exact unbroken_integer (fun name heq => h name (heq ▸ ho)) position wanted
  have hbranch : ∀ c {source wanted target : Operand}, operands = [source, wanted, target] → Unbroken (do
      let source ← source.register 1
      let wanted ← wanted.integer 2 .integer
      let target ← target.integer 3 .target
      return Action.branch c source wanted target) := by
    rintro c source wanted target rfl
    refine (unbroken_register source 1).bind fun _ => ?_
    refine (hinteger wanted (by simp) 2 .integer).bind fun _ => ?_
    exact (hinteger target (by simp) 3 .target).bind fun _ => unbroken_ok _
  have hsignature : carriageReturn ∉ op.definition.signature := (kept_words.1 op (by cases op <;> decide)).2
  unfold Action.ofOperands
  split
  next => exact unbroken_ok _
  next => exact unbroken_ok _
  next v => exact (hinteger v (by simp) 1 .integer).bind fun _ => unbroken_ok _
  next => exact unbroken_ok _
  next => exact unbroken_ok _
  next => exact unbroken_ok _
  next => exact unbroken_ok _
  next => exact unbroken_ok _
  next => exact unbroken_ok _
  next source target =>
    exact (unbroken_register source 1).bind fun _ => (unbroken_register target 2).bind fun _ => unbroken_ok _
  next target v =>
    exact (unbroken_register target 1).bind fun _ => (hinteger v (by simp) 2 .integer).bind fun _ => unbroken_ok _
  next source => exact (unbroken_register source 1).bind fun _ => unbroken_ok _
  next => exact hbranch .equal rfl
  next => exact hbranch .different rfl
  next source => exact (unbroken_register source 1).bind fun _ => unbroken_ok _
  next target => exact (unbroken_register target 1).bind fun _ => unbroken_ok _
  next =>
    apply unbroken_error
    simp +decide [Cause.detail, carriageReturn_not_mem_decimalNat, hsignature]

theorem unbroken_writable (r : Register) : Unbroken r.writable := by
  unfold Register.writable
  split
  next =>
    apply unbroken_error
    simp +decide [Cause.detail, (kept_registerName r).unbroken]
  next => exact unbroken_ok r

theorem unbroken_apply (f : BinaryOp) (b a : Int64) : Unbroken (f.apply b a) := by
  have hoverflow : Unbroken (.error (.overflow b f.symbol a) : Except Cause Int64) := by
    have hsymbol : carriageReturn ∉ f.symbol := by cases f <;> decide
    apply unbroken_error
    simp +decide [Cause.detail, carriageReturn_not_mem_value, hsymbol]
  have hzero : Unbroken (.error (.zeroDivisor b) : Except Cause Int64) := by
    apply unbroken_error
    simp +decide [Cause.detail, carriageReturn_not_mem_value]
  rw [BinaryOp.apply_eq]
  split
  next => exact hzero
  next =>
    split
    next => exact unbroken_ok _
    next => exact hoverflow

theorem unbroken_plan (m : Machine) (latch : Bool) (action : Action) : Unbroken (m.plan latch action) := by
  intro cause h
  cases Machine.plan_objection h with
  | stack state => rcases state with rfl | rfl | rfl <;> decide
  | guarded _ refused => exact unbroken_writable _ cause refused
  | arithmetic refused => exact unbroken_apply _ _ _ cause refused
  | negative => simp +decide [Cause.detail, carriageReturn_not_mem_value]

end Causes

/-- What a transaction says of itself, and how it marks the cell that it fills. -/
theorem kept_of_plan {m : Machine} {latch : Bool} {action : Action} {t : Transaction}
    (hp : m.plan latch action = .ok t) : Kept t.detail ∧ ∀ v hint, t.push = some (v, hint) → Kept hint := by
  have hname : ∀ r : Register, carriageReturn ∉ r.name := fun r => (kept_registerName r).unbroken
  have hcell : ∀ i, carriageReturn ∉ stackCellText i := fun i => (kept_stackCellText i).unbroken
  have hhalted : Kept (utf8 "halted") := kept_words.2.2 _ (by simp)
  have hpushed : Kept (utf8 "pushed") := kept_words.2.2 _ (by simp)
  have hresult : Kept (utf8 "result") := kept_words.2.2 _ (by simp)
  have hkept : ∀ {detail : Bytes}, byte ' ' ∈ detail → carriageReturn ∉ detail → Kept detail := fun hmem =>
    kept_of_mem hmem (by decide)
  cases Machine.plan_planned hp with
  | halt => exact ⟨hhalted, by simp⟩
  | nothing => exact ⟨hkept (by simp +decide) (by simp +decide), by simp⟩
  | report =>
    refine ⟨hkept (by simp +decide) ?_, by simp⟩
    simp +decide [hname, carriageReturn_not_mem_value, carriageReturn_not_mem_hexValue]
  | push | load =>
    refine ⟨hkept (by simp +decide) ?_, ?_⟩
    · simp +decide [hname, hcell, carriageReturn_not_mem_value]
    · rintro v hint ⟨⟩
      exact hpushed
  | drop | store =>
    refine ⟨hkept (by simp +decide) ?_, by simp⟩
    simp +decide [hname, hcell, carriageReturn_not_mem_value]
  | @latched f | @compared f =>
    have hsymbol : carriageReturn ∉ f.symbol := by cases f <;> decide
    refine ⟨hkept (by simp +decide) ?_, ?_⟩
    · simp +decide [hsymbol, hcell, carriageReturn_not_mem_value]
    · rintro v hint ⟨⟩
      exact hresult
  | copy | assign =>
    refine ⟨hkept (by simp +decide) ?_, by simp⟩
    simp +decide [hname, carriageReturn_not_mem_value]
  | @jump c | @skip c =>
    have hsymbol : carriageReturn ∉ c.symbol := by cases c <;> decide
    refine ⟨hkept (by simp +decide) ?_, by simp⟩
    simp +decide [hname, hsymbol, carriageReturn_not_mem_value]

/-- An error says its kind in words. -/
theorem kept_body {error : Error} (h : carriageReturn ∉ error.cause.detail) : Kept error.body := by
  have hall : ∀ k ∈ [Kind.stackOverflow, .stackUnderflow, .divideByZero, .invalidRegister, .invalidOpcode,
      .invalidOperand, .arithmeticOverflow, .commitPending, .nothingPending, .stepLimit, .noHalt],
      byte ' ' ∈ k.text ∧ carriageReturn ∉ k.text := by decide +kernel
  have hkind : byte ' ' ∈ error.cause.kind.text ∧ carriageReturn ∉ error.cause.kind.text := by
    apply hall
    cases error.cause <;> simp [Cause.kind]
  unfold Error.body Error.complaint Complaint.body
  dsimp only
  split
  next => exact kept_of_mem hkind.1 (by decide) hkind.2
  next =>
    refine kept_of_mem (c := byte ' ') (by simp [hkind.1]) (by decide) ?_
    simp +decide [hkind.2, h]

end StackMachine
