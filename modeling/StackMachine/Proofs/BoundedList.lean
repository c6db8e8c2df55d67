import Mathlib.Algebra.Group.Int.Defs
import Mathlib.Algebra.Group.Nat.Defs
import StackMachine.Proofs.ExactArithmetic
import StackMachine.Proofs.StackView

namespace StackMachine

namespace Stack

inductive Call where
  | push (v : Int64)
  | pop
  | peek (offset : Int64)
  | cell (i : Int64)
  | reset

inductive Reply where
  | done
  | value (v : Int64)
  | content (cell : Cell)
  | refused (kind : Kind)

def answer (s : Stack) : Call → Reply × Stack
  | .push v => match s.push v with
    | .ok pushed => (.done, pushed)
    | .error kind => (.refused kind, s)
  | .pop => match s.pop with
    | .ok (v, rest) => (.value v, rest)
    | .error kind => (.refused kind, s)
  | .peek offset => match s.peek offset.toInt with
    | .ok v => (.value v, s)
    | .error kind => (.refused kind, s)
  | .cell i => (.content (s.cell i.toInt), s)
  | .reset => (.done, s.reset)

def Reply.isRefusal : Reply → Bool
  | .refused _ => true
  | _ => false

def Call.onlyReads : Call → Bool
  | .peek _ | .cell _ => true
  | _ => false

theorem answer_unmoved (s : Stack) {call : Call} (h : (s.answer call).1.isRefusal ∨ call.onlyReads) :
    (s.answer call).2 = s := by
  cases call with
  | push v =>
    cases hp : s.push v with
    | ok pushed => simp [answer, hp, Reply.isRefusal, Call.onlyReads] at h
    | error kind => simp only [answer, hp]
  | pop =>
    cases hp : s.pop with
    | ok popped => simp [answer, hp, Reply.isRefusal, Call.onlyReads] at h
    | error kind => simp only [answer, hp]
  | peek offset => cases hp : s.peek offset.toInt <;> simp only [answer, hp]
  | cell i => rfl
  | reset => simp [answer, Reply.isRefusal, Call.onlyReads] at h

/-- The replies to some calls, made one after the other, and what they leave. -/
def transcript {σ : Type} (answer : σ → Call → Reply × σ) (start : σ) : List Call → List Reply × σ
  | [] => ([], start)
  | call :: calls =>
    let first := answer start call
    let others := transcript answer first.2 calls
    (first.1 :: others.1, others.2)

def answers (s : Stack) (calls : List Call) : List Reply × Stack := transcript answer s calls

end Stack

/-- The entry at an index, and none at an index that is negative or too large. -/
def entryAt? {α : Type} (xs : List α) (i : Int64) : Option α := if i < 0 then none else xs[i.toInt.toNat]?

theorem entryAt?_eq_none_iff {α : Type} {xs : List α} {i : Int64} :
    entryAt? xs i = none ↔ i < 0 ∨ xs.length ≤ i.toInt := by
  unfold entryAt?
  by_cases hneg : i < 0
  · simp [hneg]
  · rw [if_neg hneg, List.getElem?_eq_none_iff]
    rw [lt_zero_iff_toInt] at hneg ⊢
    omega

/-- The values of a stack, top first; there are at most `capacity` of them. -/
structure BoundedList (capacity : Nat) where
  values : List Int64
  fits : values.length ≤ capacity

namespace BoundedList

variable {capacity : Nat}

def empty (capacity : Nat) : BoundedList capacity := ⟨[], Nat.zero_le _⟩

def answer : BoundedList capacity → Stack.Call → Stack.Reply × BoundedList capacity
  | ⟨vs, fits⟩, .push v =>
    if room : vs.length < capacity then (.done, ⟨v :: vs, room⟩) else (.refused .stackOverflow, ⟨vs, fits⟩)
  | ⟨[], fits⟩, .pop => (.refused .stackUnderflow, ⟨[], fits⟩)
  | ⟨v :: vs, fits⟩, .pop => (.value v, ⟨vs, Nat.le_of_succ_le fits⟩)
  | l, .peek offset => match entryAt? l.values offset with
    | some v => (.value v, l)
    | none => (.refused .stackUnderflow, l)
  | l, .cell i => (.content (entryAt? l.values.reverse i), l)
  | _, .reset => (.done, empty capacity)

def answers (l : BoundedList capacity) (calls : List Stack.Call) : List Stack.Reply × BoundedList capacity :=
  Stack.transcript answer l calls

/-- The stack that holds the values. -/
def toStack (l : BoundedList capacity) : Stack := Stack.ofValues capacity l.values

/-- What the list says of a stack: what is in its cells, and which operations fail on it. -/
structure Describes (l : BoundedList capacity) (s : Stack) : Prop where
  capacity_eq : s.capacity = capacity
  size_eq : s.size = l.values.length
  cell_eq : ∀ i : Int64, s.cell i.toInt = entryAt? l.values.reverse i
  push_error_iff : ∀ v kind, s.push v = .error kind ↔ kind = .stackOverflow ∧ l.values.length = capacity
  /-- A pop takes back a push, cell by cell. -/
  pop_push : ∀ v pushed, s.push v = .ok pushed → pushed.pop = .ok (v, s)
  pop_error_iff : ∀ kind, s.pop = .error kind ↔ kind = .stackUnderflow ∧ l.values = []
  peek_error_iff : ∀ (offset : Int64) kind, s.peek offset.toInt = .error kind ↔
    kind = .stackUnderflow ∧ (offset < 0 ∨ l.values.length ≤ offset.toInt)

end BoundedList

namespace Stack

variable {capacity : Nat} {vs : List Int64}

theorem cell_toInt_ofValues (i : Int64) : (ofValues capacity vs).cell i.toInt = entryAt? vs.reverse i := by
  by_cases hneg : i < 0
  · rw [entryAt?, if_pos hneg, cell, if_pos (lt_zero_iff_toInt.mp hneg)]
  · have hint : ¬ i.toInt < 0 := mt lt_zero_iff_toInt.mpr hneg
    have hnat : i.toInt = (i.toInt.toNat : Int) := by omega
    rw [entryAt?, if_neg hneg, hnat, cell_ofValues, Int.toNat_natCast]

/-- Where the offset is not negative the index does not wrap, and where it may wrap it is not used. -/
theorem peek_ofValues (hc : FitsWord capacity) (hv : vs.length ≤ capacity) (offset : Int64) :
    (ofValues capacity vs).peek offset.toInt = match entryAt? vs offset with
      | some v => .ok v
      | none => .error .stackUnderflow := by
  by_cases hneg : offset < 0
  · have hint : offset.toInt < 0 := lt_zero_iff_toInt.mp hneg
    simp only [entryAt?, peek, if_pos hneg, hint, true_or, if_true]
  · have hint : ¬ offset.toInt < 0 := mt lt_zero_iff_toInt.mpr hneg
    obtain ⟨-, hlt⟩ := fits_toInt offset
    obtain ⟨-, hclt⟩ := hc
    have hindex : (Int64.ofInt ((ofValues capacity vs).sp - offset.toInt)).toInt = vs.length - 1 - offset.toInt := by
      rw [toInt_ofInt_wrapWord, sp_ofValues]
      exact wrapWord_of_fits ⟨by omega, by omega⟩
    simp only [peek, hindex, hint, false_or]
    by_cases hdeep : vs.length ≤ offset.toInt
    · rw [if_pos (by omega), entryAt?_eq_none_iff.mpr (.inr hdeep)]
    · have hplace : (vs.length : Int) - 1 - offset.toInt = (vs.length - 1 - offset.toInt.toNat : Nat) := by omega
      have hmirror : vs.reverse[vs.length - 1 - offset.toInt.toNat]? = vs[offset.toInt.toNat]? := by
        rw [List.getElem?_reverse (by omega)]
        congr 1
        omega
      rw [if_neg (by omega), hplace, cell_ofValues, hmirror, entryAt?, if_neg hneg]
      rfl

end Stack

namespace BoundedList

variable {capacity : Nat} (hc : FitsWord capacity) (l : BoundedList capacity)
include hc

theorem toStack_answer (call : Stack.Call) :
    l.toStack.answer call = ((l.answer call).1, (l.answer call).2.toStack) := by
  obtain ⟨vs, fits⟩ := l
  cases call with
  | push v =>
    by_cases room : vs.length < capacity
    · simp only [Stack.answer, answer, toStack, Stack.push_ofValues v room, dif_pos room]
    · have hfull : vs.length = capacity := by omega
      simp only [Stack.answer, answer, toStack, Stack.push_ofValues_full v hfull, dif_neg room]
  | pop =>
    cases vs with
    | nil => rfl
    | cons v vs => simp only [Stack.answer, answer, toStack, Stack.pop_ofValues_cons fits]
  | peek offset =>
    simp only [Stack.answer, answer, toStack, Stack.peek_ofValues hc fits]
    cases entryAt? vs offset <;> rfl
  | cell i => simp only [Stack.answer, answer, toStack, Stack.cell_toInt_ofValues]
  | reset => simp only [Stack.answer, answer, toStack, empty, Stack.reset_ofValues fits]

theorem toStack_answers (calls : List Stack.Call) :
    l.toStack.answers calls = ((l.answers calls).1, (l.answers calls).2.toStack) := by
  unfold Stack.answers answers
  induction calls generalizing l with
  | nil => rfl
  | cons call calls ih => simp only [Stack.transcript, toStack_answer hc, ih]

theorem describes_toStack : l.Describes l.toStack where
  capacity_eq := Stack.capacity_ofValues l.fits
  size_eq := by rw [Stack.size, toStack, Stack.sp_ofValues]; omega
  cell_eq := Stack.cell_toInt_ofValues
  push_error_iff v kind := by
    rcases Nat.lt_or_eq_of_le l.fits with room | hfull
    · rw [toStack, Stack.push_ofValues v room]
      simp only [reduceCtorEq, false_iff]
      omega
    · rw [toStack, Stack.push_ofValues_full v hfull]
      simp only [Except.error.injEq, hfull, and_true]
      exact eq_comm
  pop_push v pushed h := by
    rcases Nat.lt_or_eq_of_le l.fits with room | hfull
    · rw [toStack, Stack.push_ofValues v room] at h
      cases h
      exact Stack.pop_ofValues_cons room
    · rw [toStack, Stack.push_ofValues_full v hfull] at h
      cases h
  pop_error_iff kind := by
    obtain ⟨vs, fits⟩ := l
    cases vs with
    | nil =>
      rw [toStack, Stack.pop_ofValues_nil]
      simp only [Except.error.injEq, and_true]
      exact eq_comm
    | cons v vs => simp [toStack, Stack.pop_ofValues_cons fits]
  peek_error_iff offset kind := by
    rw [toStack, Stack.peek_ofValues hc l.fits, ← entryAt?_eq_none_iff]
    cases entryAt? l.values offset with
    | none =>
      simp only [Except.error.injEq, and_true]
      exact eq_comm
    | some v => simp

end BoundedList

end StackMachine
