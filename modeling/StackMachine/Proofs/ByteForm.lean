import Mathlib.Data.List.Forall2
import StackMachine.Proofs.Begin

namespace StackMachine

theorem bind_eq_ok_iff {ε α β : Type} {r : Except ε α} {f : α → Except ε β} {b : β} :
    (r >>= f) = .ok b ↔ ∃ a, r = .ok a ∧ f a = .ok b := by
  cases r with
  | error _ => simp [bind, Except.bind]
  | ok a => simp [bind, Except.bind]

theorem Cause.underOpcode_eq_ok_iff {α : Type} {op : Opcode} {r : Except Cause α} {a : α} :
    Cause.underOpcode op r = .ok a ↔ r = .ok a := by
  cases r with
  | error cause => simp [Cause.underOpcode]
  | ok a' => simp [Cause.underOpcode]

theorem Opcode.code_of_ofCode? {code : UInt8} {op : Opcode} (h : Opcode.ofCode? code = some op) : op.code = code := by
  obtain ⟨hlt, hop⟩ := List.getElem?_eq_some_iff.mp h
  have hall : ∀ n (hn : n < Opcode.all.length), (Opcode.all[n]).code = UInt8.ofNat n := by decide
  rw [← hop, hall, UInt8.ofNat_toNat]

theorem Register.ofName?_name (r : Register) : Register.ofName? r.name = some r := by
  cases r <;> rfl

theorem Register.ofIndex?_byte (r : Register) : Register.ofIndex? r.byte.toNat = some r := by
  cases r <;> rfl

theorem Register.byte_of_ofIndex? {r : Register} {b : UInt8} (h : Register.ofIndex? b.toNat = some r) :
    r.byte = b := by
  obtain ⟨hlt, hr⟩ := List.getElem?_eq_some_iff.mp h
  have hall : ∀ n (hn : n < Register.all.length), (Register.all[n]).byte = UInt8.ofNat n := by decide
  rw [← hr, hall, UInt8.ofNat_toNat]

theorem toInt_ofNat_byte (b : UInt8) : (Int64.ofNat b.toNat).toInt = b.toNat := by
  have hb := b.toNat_lt
  exact Int64.toInt_ofNat_of_lt (by omega)

theorem operandByte_eq_ok_iff {v : Int64} {b : UInt8} : operandByte v = .ok b ↔ v.toInt = b.toNat := by
  have hb := b.toNat_lt
  have hlow : (0 : Int64) ≤ v ↔ 0 ≤ v.toInt := Int64.le_iff_toInt_le
  have hhigh : v ≤ (0xFF : Int64) ↔ v.toInt ≤ 255 := Int64.le_iff_toInt_le
  unfold operandByte
  split
  next h =>
    rw [hlow, hhigh] at h
    have hnat : v.toInt.toNat.toUInt8.toNat = v.toInt.toNat :=
      UInt8.toNat_ofNat_of_lt (show v.toInt.toNat < 256 by omega)
    rw [Except.ok.injEq, ← UInt8.toNat_inj, hnat]
    omega
  next h =>
    rw [hlow, hhigh] at h
    simp only [reduceCtorEq, false_iff]
    omega

/-- Another spelling of an operand: the same number, or the same register by its own name. -/
inductive Operand.Canonical : Operand → Operand → Prop
  | number (v : Int64) : Canonical (.imm v) (.imm v)
  | register {name : Bytes} {r : Register} (named : Register.ofName? name = some r) :
      Canonical (.reg name) (.reg r.name)

namespace Operand

theorem canonical_of_register {o : Operand} {position : Nat} {r : Register} (h : o.register position = .ok r) :
    o.Canonical (.reg r.name) := by
  cases o with
  | imm v => cases h
  | reg name =>
    unfold Operand.register at h
    cases hn : Register.ofName? name with
    | none => simp [hn] at h
    | some r' =>
      have hr : r' = r := by simpa [hn] using h
      subst hr
      exact .register hn

theorem canonical_of_integer {o : Operand} {position : Nat} {kind : OperandKind} {v : Int64}
    (h : o.integer position kind = .ok v) : o.Canonical (.imm v) := by
  cases o with
  | imm w =>
    cases h
    exact .number v
  | reg name => cases h

end Operand

/-- An instruction that makes up an action has the operands of that action, in some spelling. -/
theorem Action.canonical_of_ofOperands {op : Opcode} {operands : List Operand} {action : Action}
    (h : Action.ofOperands op operands = .ok action) :
    action.opcode = op ∧ List.Forall₂ Operand.Canonical operands action.operands := by
  cases op with
  | hlt | nop | pop | add | mul | div | sub | slt =>
    match operands with
    | [] =>
      cases h
      exact ⟨rfl, .nil⟩
    | _ :: _ => cases h
  | psh =>
    match operands with
    | [o] =>
      obtain ⟨v, hv, h⟩ := bind_eq_ok_iff.mp h
      cases h
      exact ⟨rfl, .cons (Operand.canonical_of_integer hv) .nil⟩
    | [] | _ :: _ :: _ => cases h
  | log | gld | gpt =>
    match operands with
    | [o] =>
      obtain ⟨r, hr, h⟩ := bind_eq_ok_iff.mp h
      cases h
      exact ⟨rfl, .cons (Operand.canonical_of_register hr) .nil⟩
    | [] | _ :: _ :: _ => cases h
  | mov =>
    match operands with
    | [o, o'] =>
      obtain ⟨source, hs, h⟩ := bind_eq_ok_iff.mp h
      obtain ⟨target, ht, h⟩ := bind_eq_ok_iff.mp h
      cases h
      exact ⟨rfl, .cons (Operand.canonical_of_register hs) (.cons (Operand.canonical_of_register ht) .nil)⟩
    | [] | [_] | _ :: _ :: _ :: _ => cases h
  | set =>
    match operands with
    | [o, o'] =>
      obtain ⟨target, ht, h⟩ := bind_eq_ok_iff.mp h
      obtain ⟨v, hv, h⟩ := bind_eq_ok_iff.mp h
      cases h
      exact ⟨rfl, .cons (Operand.canonical_of_register ht) (.cons (Operand.canonical_of_integer hv) .nil)⟩
    | [] | [_] | _ :: _ :: _ :: _ => cases h
  | ifEq | ifNe =>
    match operands with
    | [o, o', o''] =>
      obtain ⟨source, hs, h⟩ := bind_eq_ok_iff.mp h
      obtain ⟨wanted, hw, h⟩ := bind_eq_ok_iff.mp h
      obtain ⟨target, ht, h⟩ := bind_eq_ok_iff.mp h
      cases h
      exact ⟨rfl, .cons (Operand.canonical_of_register hs)
        (.cons (Operand.canonical_of_integer hw) (.cons (Operand.canonical_of_integer ht) .nil))⟩
    | [] | [_] | [_, _] | _ :: _ :: _ :: _ :: _ => cases h

theorem Action.ofOperands_operands (action : Action) :
    Action.ofOperands action.opcode action.operands = .ok action := by
  have hr : ∀ (r : Register) (position : Nat), (Operand.reg r.name).register position = .ok r := by
    intro r position
    simp [Operand.register, Register.ofName?_name]
  cases action with
  | halt | nothing | push v | drop => rfl
  | combine f => cases f <;> rfl
  | copy source target | assign target v | report source | load source | store target =>
    simp only [opcode, operands, ofOperands, hr]
    rfl
  | branch c source wanted target =>
    cases c <;> (simp only [opcode, Condition.opcode, operands, ofOperands, hr]; rfl)

/-- The byte that stands for an operand at a place of some kind. -/
inductive OperandKind.Encodes : OperandKind → Operand → UInt8 → Prop
  | register {name : Bytes} {r : Register} (named : Register.ofName? name = some r) :
      Encodes .register (.reg name) r.byte
  | number {kind : OperandKind} {v : Int64} {b : UInt8} (hk : kind ≠ .register) (hv : v.toInt = b.toNat) :
      Encodes kind (.imm v) b

/-- The bytes that stand for some operands at places of some kinds. -/
inductive Layout : List OperandKind → List Operand → Bytes → Prop
  | nil : Layout [] [] []
  | cons {kind : OperandKind} {kinds : List OperandKind} {o : Operand} {operands : List Operand} {b : UInt8}
      {bytes : Bytes} (first : kind.Encodes o b) (rest : Layout kinds operands bytes) :
      Layout (kind :: kinds) (o :: operands) (b :: bytes)

namespace OperandKind.Encodes

variable {kind : OperandKind} {o o' : Operand} {b : UInt8}

theorem register_ok (h : OperandKind.register.Encodes o b) : ∃ r, ∀ position, o.register position = .ok r := by
  cases h with
  | register named => exact ⟨_, fun position => by simp [Operand.register, named]; rfl⟩
  | number hk => exact absurd rfl hk

theorem integer_ok (h : kind.Encodes o b) (hk : kind ≠ .register) :
    ∃ v, ∀ position, o.integer position kind = .ok v := by
  cases h with
  | register => exact absurd rfl hk
  | number => exact ⟨_, fun _ => rfl⟩

theorem name_iff {r : Register} : OperandKind.register.Encodes (.reg r.name) b ↔ r.byte = b := by
  constructor
  · intro h
    cases h with
    | register named =>
      rw [Register.ofName?_name] at named
      cases named
      rfl
  · rintro rfl
    exact .register (Register.ofName?_name r)

theorem imm_iff {v : Int64} (hk : kind ≠ .register) : kind.Encodes (.imm v) b ↔ operandByte v = .ok b := by
  rw [operandByte_eq_ok_iff]
  constructor
  · rintro ⟨⟩
    assumption
  · exact .number hk

theorem canonical_iff (h : o.Canonical o') : kind.Encodes o b ↔ kind.Encodes o' b := by
  cases h with
  | number v => rfl
  | register named =>
    constructor
    · rintro ⟨⟩
      next r' named' =>
        rw [named] at named'
        cases named'
        exact name_iff.mpr rfl
    · intro h
      cases h with
      | register named' =>
        rw [Register.ofName?_name] at named'
        cases named'
        exact .register named

end OperandKind.Encodes

namespace Layout

variable {kind : OperandKind} {kinds : List OperandKind} {o : Operand} {operands operands' : List Operand}
  {bytes : Bytes}

theorem nil_iff : Layout [] [] bytes ↔ [] = bytes := by
  constructor
  · rintro ⟨⟩
    rfl
  · rintro rfl
    exact .nil

theorem cons_iff : Layout (kind :: kinds) (o :: operands) bytes ↔
    ∃ b rest, kind.Encodes o b ∧ Layout kinds operands rest ∧ b :: rest = bytes := by
  constructor
  · intro h
    cases h with
    | cons first rest => exact ⟨_, _, first, rest, rfl⟩
  · rintro ⟨b, rest, hb, hrest, rfl⟩
    exact .cons hb hrest

theorem length_eq (h : Layout kinds operands bytes) : bytes.length = kinds.length := by
  induction h with
  | nil => rfl
  | cons _ _ ih => simp [ih]

/-- The spelling of registers leaves no trace in the bytes. -/
theorem canonical_iff (h : List.Forall₂ Operand.Canonical operands operands') :
    Layout kinds operands bytes ↔ Layout kinds operands' bytes := by
  induction h generalizing kinds bytes with
  | nil => rfl
  | cons first _ ih =>
    constructor
    · rintro ⟨⟩
      next hb hrest => exact .cons ((OperandKind.Encodes.canonical_iff first).mp hb) (ih.mp hrest)
    · rintro ⟨⟩
      next hb hrest => exact .cons ((OperandKind.Encodes.canonical_iff first).mpr hb) (ih.mpr hrest)

/-- Operands that are laid out for an opcode make up an action. -/
theorem exists_action {op : Opcode} (h : Layout op.definition.operands operands bytes) :
    ∃ action, Action.ofOperands op operands = .ok action := by
  cases op with
  | hlt | nop | pop | add | mul | div | sub | slt =>
    cases h
    exact ⟨_, rfl⟩
  | psh =>
    obtain _ | ⟨first, ⟨⟩⟩ := h
    obtain ⟨v, hv⟩ := first.integer_ok (by decide)
    exact ⟨.push v, by simp only [Action.ofOperands, hv]; rfl⟩
  | log | gld | gpt =>
    obtain _ | ⟨first, ⟨⟩⟩ := h
    obtain ⟨r, hr⟩ := first.register_ok
    exact ⟨_, by simp only [Action.ofOperands, hr]; rfl⟩
  | mov =>
    obtain _ | ⟨first, _ | ⟨second, ⟨⟩⟩⟩ := h
    obtain ⟨source, hs⟩ := first.register_ok
    obtain ⟨target, ht⟩ := second.register_ok
    exact ⟨.copy source target, by simp only [Action.ofOperands, hs, ht]; rfl⟩
  | set =>
    obtain _ | ⟨first, _ | ⟨second, ⟨⟩⟩⟩ := h
    obtain ⟨target, ht⟩ := first.register_ok
    obtain ⟨v, hv⟩ := second.integer_ok (by decide)
    exact ⟨.assign target v, by simp only [Action.ofOperands, ht, hv]; rfl⟩
  | ifEq | ifNe =>
    obtain _ | ⟨first, _ | ⟨second, _ | ⟨third, ⟨⟩⟩⟩⟩ := h
    obtain ⟨source, hs⟩ := first.register_ok
    obtain ⟨wanted, hw⟩ := second.integer_ok (by decide)
    obtain ⟨target, ht⟩ := third.integer_ok (by decide)
    exact ⟨_, by simp only [Action.ofOperands, hs, hw, ht]; rfl⟩

end Layout

theorem Action.operandBytes_eq_ok_iff {action : Action} {bytes : Bytes} :
    action.operandBytes = .ok bytes ↔ Layout action.opcode.definition.operands action.operands bytes := by
  have hinteger {v : Int64} {b : UInt8} : OperandKind.integer.Encodes (.imm v) b ↔ operandByte v = .ok b :=
    OperandKind.Encodes.imm_iff (by decide)
  have htarget {v : Int64} {b : UInt8} : OperandKind.target.Encodes (.imm v) b ↔ operandByte v = .ok b :=
    OperandKind.Encodes.imm_iff (by decide)
  cases action with
  | halt | nothing | drop =>
    simp [operandBytes, operands, opcode, Opcode.definition, Layout.nil_iff, pure, Except.pure]
  | combine f =>
    cases f <;>
      simp [operandBytes, operands, opcode, BinaryOp.opcode, Opcode.definition, Layout.nil_iff, pure, Except.pure]
  | push v =>
    simp [operandBytes, operands, opcode, Opcode.definition, Layout.cons_iff, Layout.nil_iff, hinteger, bind_eq_ok_iff,
      pure, Except.pure]
  | copy source target =>
    simp [operandBytes, operands, opcode, Opcode.definition, Layout.cons_iff, Layout.nil_iff,
      OperandKind.Encodes.name_iff, pure, Except.pure]
  | assign target v =>
    simp [operandBytes, operands, opcode, Opcode.definition, Layout.cons_iff, Layout.nil_iff, hinteger,
      OperandKind.Encodes.name_iff, bind_eq_ok_iff, pure, Except.pure]
  | report r | load r | store r =>
    simp [operandBytes, operands, opcode, Opcode.definition, Layout.cons_iff, Layout.nil_iff,
      OperandKind.Encodes.name_iff, pure, Except.pure]
  | branch c source wanted target =>
    cases c <;> simp [operandBytes, operands, opcode, Condition.opcode, Opcode.definition, Layout.cons_iff,
      Layout.nil_iff, hinteger, htarget, OperandKind.Encodes.name_iff, bind_eq_ok_iff, pure, Except.pure, and_assoc]

theorem encodeInstruction_eq_ok_iff {code : UInt8} {operands : List Operand} {encoded : Bytes} :
    encodeInstruction code operands = .ok encoded ↔
      ∃ op bytes, Opcode.ofCode? code = some op ∧ Layout op.definition.operands operands bytes ∧
        encoded = code :: bytes := by
  unfold encodeInstruction Opcode.ofByte
  cases hc : Opcode.ofCode? code with
  | none => simp [bind, Except.bind]
  | some op =>
    simp only [bind_eq_ok_iff, Cause.underOpcode_eq_ok_iff, pure, Except.pure, Except.ok.injEq, exists_eq_left']
    constructor
    · rintro ⟨action, ha, bytes, hb, rfl⟩
      obtain ⟨rfl, hcanonical⟩ := Action.canonical_of_ofOperands ha
      have hlayout := Action.operandBytes_eq_ok_iff.mp hb
      exact ⟨_, bytes, rfl, (Layout.canonical_iff hcanonical).mpr hlayout, rfl⟩
    · rintro ⟨_, bytes, ⟨⟩, hlayout, rfl⟩
      obtain ⟨action, ha⟩ := hlayout.exists_action
      obtain ⟨rfl, hcanonical⟩ := Action.canonical_of_ofOperands ha
      have hb := Action.operandBytes_eq_ok_iff.mpr ((Layout.canonical_iff hcanonical).mp hlayout)
      exact ⟨action, ha, bytes, hb, rfl⟩

section Reading

variable {kinds : List OperandKind} {operands : List Operand} {bytes : Bytes}

/-- A layout is read back, whatever follows it. -/
theorem Layout.readOperands_ok (h : Layout kinds operands bytes) (rest : Bytes) (offset : Nat) :
    ∃ operands', readOperands kinds (bytes ++ rest) offset = .ok operands' ∧
      List.Forall₂ Operand.Canonical operands operands' := by
  induction h generalizing offset with
  | nil => exact ⟨[], rfl, .nil⟩
  | @cons kind _ _ _ b _ first _ ih =>
    obtain ⟨operands', hread, hcanonical⟩ := ih (offset + 1)
    cases first with
    | @register _ r named =>
      refine ⟨.reg r.name :: operands', ?_, .cons (.register named) hcanonical⟩
      simp [readOperands, Register.ofIndex?_byte, hread, bind, Except.bind, pure, Except.pure]
    | @number _ v _ hk hv =>
      have hnumber : Int64.ofNat b.toNat = v := Int64.toInt_inj.mp (by rw [toInt_ofNat_byte, hv])
      refine ⟨.imm v :: operands', ?_, .cons (.number v) hcanonical⟩
      cases kind with
      | register => exact absurd rfl hk
      | integer | target => simp [readOperands, hnumber, hread, bind, Except.bind, pure, Except.pure]

theorem layout_of_readOperands {offset : Nat} (hl : kinds.length ≤ bytes.length)
    (h : readOperands kinds bytes offset = .ok operands) : Layout kinds operands (bytes.take kinds.length) := by
  induction kinds generalizing bytes offset operands with
  | nil =>
    cases h
    exact .nil
  | cons kind kinds ih =>
    match bytes with
    | [] => simp at hl
    | b :: bytes =>
      simp only [List.length_cons] at hl
      unfold readOperands at h
      cases kind with
      | register =>
        cases hr : Register.ofIndex? b.toNat with
        | none => simp [hr, bind, Except.bind] at h
        | some r =>
          simp only [List.headD_cons, hr, List.tail_cons] at h
          obtain ⟨_, ⟨⟩, h⟩ := bind_eq_ok_iff.mp h
          obtain ⟨operands', hrest, h⟩ := bind_eq_ok_iff.mp h
          cases h
          refine .cons ?_ (ih (by omega) hrest)
          rw [← Register.byte_of_ofIndex? hr]
          exact .register (Register.ofName?_name r)
      | integer | target =>
        obtain ⟨_, ⟨⟩, h⟩ := bind_eq_ok_iff.mp h
        obtain ⟨operands', hrest, h⟩ := bind_eq_ok_iff.mp h
        cases h
        exact .cons (.number (by decide) (toInt_ofNat_byte b)) (ih (by omega) hrest)

end Reading

theorem Opcode.size_eq (op : Opcode) : op.size = op.definition.operands.length + 1 := Nat.add_comm _ _

/-- An encoded instruction is read at its place in any code. -/
theorem decodeAt_encoded {code : UInt8} {operands : List Operand} {encoded : Bytes}
    (h : encodeInstruction code operands = .ok encoded) (before after : Bytes) {ip : Int64}
    (hip : ip.toInt = before.length) :
    ∃ i, decodeAt (before ++ encoded ++ after) ip = .ok i ∧ i.op.code = code ∧
      List.Forall₂ Operand.Canonical operands i.operands ∧ i.op.size = encoded.length := by
  obtain ⟨op, bytes, hop, hlayout, rfl⟩ := encodeInstruction_eq_ok_iff.mp h
  have hlength := hlayout.length_eq
  obtain ⟨operands', hread, hcanonical⟩ := hlayout.readOperands_ok after (before.length + 1)
  have hplace : ip.toInt.toNat = before.length := by omega
  have hnonneg : ¬ ip < 0 := by
    rw [Int64.lt_iff_toInt_lt]
    show ¬ ip.toInt < 0
    omega
  have hdrop : (before ++ (code :: bytes) ++ after).drop before.length = code :: (bytes ++ after) := by simp
  refine ⟨⟨op, operands'⟩, ?_, Opcode.code_of_ofCode? hop, hcanonical, ?_⟩
  · have hlong : ¬ (bytes ++ after).length < op.definition.operands.length := by
      simp only [List.length_append]
      omega
    simp only [decodeAt, if_neg hnonneg, hplace, hdrop, readInstruction, hop, if_neg hlong, hread]
    rfl
  · simp only [Opcode.size_eq, List.length_cons, hlength]

theorem readInstruction_eq_ok {offset : Nat} {first : UInt8} {rest : Bytes} {i : Instruction}
    (h : readInstruction offset first rest = .ok i) :
    first = i.op.code ∧ i.op.definition.operands.length ≤ rest.length ∧
      readOperands i.op.definition.operands rest (offset + 1) = .ok i.operands := by
  unfold readInstruction at h
  cases hop : Opcode.ofCode? first with
  | none => simp [hop] at h
  | some op =>
    simp only [hop, Cause.underOpcode_eq_ok_iff] at h
    split at h
    next => cases h
    next hlong =>
      obtain ⟨operands, hread, h⟩ := bind_eq_ok_iff.mp h
      cases h
      exact ⟨(Opcode.code_of_ofCode? hop).symm, Nat.not_lt.mp hlong, hread⟩

/-- What was read is encoded as the bytes it was read from. -/
theorem encodeInstruction_read {offset : Nat} {first : UInt8} {rest : Bytes} {i : Instruction}
    (h : readInstruction offset first rest = .ok i) :
    i.op.size ≤ (first :: rest).length ∧
      encodeInstruction i.op.code i.operands = .ok ((first :: rest).take i.op.size) := by
  obtain ⟨rfl, hlong, hread⟩ := readInstruction_eq_ok h
  have hlayout := layout_of_readOperands hlong hread
  refine ⟨by rw [Opcode.size_eq, List.length_cons]; omega, ?_⟩
  rw [Opcode.size_eq, List.take_succ_cons]
  exact encodeInstruction_eq_ok_iff.mpr ⟨i.op, _, Opcode.ofCode?_code i.op, hlayout, rfl⟩

theorem encodeInstruction_decoded {code : Bytes} {ip : Int64} {i : Instruction} (h : decodeAt code ip = .ok i) :
    0 ≤ ip.toInt ∧ ip.toInt.toNat + i.op.size ≤ code.length ∧
      encodeInstruction i.op.code i.operands = .ok ((code.drop ip.toInt.toNat).take i.op.size) := by
  unfold decodeAt at h
  split at h
  next => cases h
  next hnonneg =>
    rw [Int64.lt_iff_toInt_lt] at hnonneg
    have hip : 0 ≤ ip.toInt := Int.not_lt.mp hnonneg
    cases hdrop : code.drop ip.toInt.toNat with
    | nil =>
      rw [hdrop] at h
      cases h
    | cons first rest =>
      simp only [hdrop] at h
      obtain ⟨hsize, hencoded⟩ := encodeInstruction_read h
      have hlength : code.length - ip.toInt.toNat = (first :: rest).length := by rw [← List.length_drop, hdrop]
      have hpos : 0 < (first :: rest).length := Nat.succ_pos _
      exact ⟨hip, by omega, hencoded⟩

/-- An operand is of the kind that its place asks for. -/
def OperandKind.Matches (kind : OperandKind) (o : Operand) : Prop := kind = .register ↔ ∃ name, o = .reg name

/-- A name is that of a register, and a number is one that a byte holds. -/
def Operand.Encodable : Operand → Prop
  | .reg name => ∃ r, Register.ofName? name = some r
  | .imm v => 0 ≤ v.toInt ∧ v.toInt ≤ 255

theorem OperandKind.exists_encodes_iff {kind : OperandKind} {o : Operand} :
    (∃ b, kind.Encodes o b) ↔ kind.Matches o ∧ o.Encodable := by
  constructor
  · rintro ⟨b, h⟩
    cases h with
    | @register name r named => exact ⟨by simp [Matches], r, named⟩
    | number hk hv =>
      have hb := b.toNat_lt
      exact ⟨by simp [Matches, hk], by omega, by omega⟩
  · rintro ⟨hmatches, hencodable⟩
    cases o with
    | reg name =>
      obtain ⟨r, named⟩ := hencodable
      have hkind : kind = .register := hmatches.mpr ⟨name, rfl⟩
      subst hkind
      exact ⟨r.byte, .register named⟩
    | imm v =>
      obtain ⟨hlow, hhigh⟩ := hencodable
      have hkind : kind ≠ .register := by
        intro hk
        obtain ⟨name, hname⟩ := hmatches.mp hk
        cases hname
      have hb : (UInt8.ofNat v.toInt.toNat).toNat = v.toInt.toNat :=
        UInt8.toNat_ofNat_of_lt (show v.toInt.toNat < 256 by omega)
      exact ⟨UInt8.ofNat v.toInt.toNat, .number hkind (by omega)⟩

theorem exists_layout_iff {kinds : List OperandKind} {operands : List Operand} :
    (∃ bytes, Layout kinds operands bytes) ↔
      List.Forall₂ OperandKind.Matches kinds operands ∧ ∀ o ∈ operands, o.Encodable := by
  constructor
  · rintro ⟨bytes, h⟩
    induction h with
    | nil => exact ⟨.nil, by simp⟩
    | cons first _ ih =>
      obtain ⟨hmatches, hencodable⟩ := OperandKind.exists_encodes_iff.mp ⟨_, first⟩
      exact ⟨.cons hmatches ih.1, List.forall_mem_cons.mpr ⟨hencodable, ih.2⟩⟩
  · rintro ⟨hkinds, hencodable⟩
    induction hkinds with
    | nil => exact ⟨[], .nil⟩
    | cons hmatches _ ih =>
      obtain ⟨hfirst, hrest⟩ := List.forall_mem_cons.mp hencodable
      obtain ⟨b, hb⟩ := OperandKind.exists_encodes_iff.mpr ⟨hmatches, hfirst⟩
      obtain ⟨bytes, hbytes⟩ := ih hrest
      exact ⟨b :: bytes, .cons hb hbytes⟩

/-- Encoding and decoding are inverse to each other, up to the spelling of registers and wherever the instruction stands
in the code, and an instruction has a byte form exactly when it fits the catalog and its numbers fit a byte. -/
theorem encoding_round_trip :
    (∀ (code : UInt8) (operands : List Operand) (encoded : Bytes), encodeInstruction code operands = .ok encoded →
      ∀ (before after : Bytes) (ip : Int64), ip.toInt = before.length →
        ∃ i, decodeAt (before ++ encoded ++ after) ip = .ok i ∧ i.op.code = code ∧
          List.Forall₂ Operand.Canonical operands i.operands ∧ i.op.size = encoded.length) ∧
    (∀ (code : Bytes) (ip : Int64) (i : Instruction), decodeAt code ip = .ok i →
      0 ≤ ip.toInt ∧ ip.toInt.toNat + i.op.size ≤ code.length ∧
        encodeInstruction i.op.code i.operands = .ok ((code.drop ip.toInt.toNat).take i.op.size)) ∧
    (∀ (code : UInt8) (operands : List Operand), (∃ encoded, encodeInstruction code operands = .ok encoded) ↔
      ∃ op, Opcode.ofCode? code = some op ∧
        List.Forall₂ OperandKind.Matches op.definition.operands operands ∧ ∀ o ∈ operands, o.Encodable) := by
  refine ⟨?_, ?_, ?_⟩
  · exact fun code operands encoded h before after ip hip => decodeAt_encoded h before after hip
  · exact fun code ip i h => encodeInstruction_decoded h
  · intro code operands
    simp only [encodeInstruction_eq_ok_iff, ← exists_layout_iff]
    constructor
    · rintro ⟨_, op, bytes, hop, hlayout, rfl⟩
      exact ⟨op, hop, bytes, hlayout⟩
    · rintro ⟨op, hop, bytes, hlayout⟩
      exact ⟨_, op, bytes, hop, hlayout, rfl⟩

/-- A dotless i is written as I, so both names are those of pointers. -/
theorem encoding_round_trip_spelled :
    let operands := [Operand.reg (utf8 " ıp"), .reg (utf8 "Sp\t")]
    encodeInstruction Opcode.mov.code operands = .ok [8, 10, 11] ∧
      ∃ i, decodeAt ([0xFF] ++ [8, 10, 11] ++ [0xFF]) 1 = .ok i ∧ i.op.code = Opcode.mov.code ∧
        List.Forall₂ Operand.Canonical operands i.operands ∧ i.op.size = 3 := by
  have h : encodeInstruction Opcode.mov.code [Operand.reg (utf8 " ıp"), .reg (utf8 "Sp\t")] = .ok [8, 10, 11] := rfl
  exact ⟨h, encoding_round_trip.1 _ _ _ h [0xFF] [0xFF] 1 rfl⟩

end StackMachine
