import Mathlib.Algebra.Group.Int.Defs
import Mathlib.Algebra.Group.Nat.Defs
import StackMachine.Proofs.BoundedList

namespace StackMachine

/-- Slots from the bottom up, and the index of the topmost occupied one as a word. -/
structure WordStack where
  slots : List Slot
  sp : Int64

/-- Steps on the slots. They stop and give nothing when one of them goes to an index outside. -/
abbrev CellSteps := StateT WordStack Option

namespace WordStack

def empty (requested : Int64) : WordStack :=
  let capacity := if requested < 1 then Int64.ofNat defaultCapacity else requested
  ⟨List.replicate capacity.toInt.toNat .empty, -1⟩

def fetch (i : Int64) : CellSteps Slot := do
  let w ← get
  entryAt? w.slots i

def store (i : Int64) (content : Slot) : CellSteps Unit := do
  let w ← get
  -- only a slot that is there can be written
  let _ ← entryAt? w.slots i
  set { w with slots := w.slots.set i.toInt.toNat content }

def push (v : Int64) : CellSteps Stack.Reply := do
  let w ← get
  if w.sp = Int64.ofNat w.slots.length - 1 then
    return .refused .stackOverflow
  else
    set { w with sp := w.sp + 1 }
    store (w.sp + 1) (.holding v)
    return .done

def pop : CellSteps Stack.Reply := do
  let w ← get
  if w.sp < 0 then
    return .refused .stackUnderflow
  else
    let top ← fetch w.sp
    store w.sp .empty
    modify fun w => { w with sp := w.sp - 1 }
    return .value top.value

def peek (offset : Int64) : CellSteps Stack.Reply := do
  let w ← get
  let i := w.sp - offset
  if offset < 0 ∨ i < 0 then
    return .refused .stackUnderflow
  else
    let slot ← fetch i
    if slot.occupied then
      return .value slot.value
    else
      return .refused .stackUnderflow

def cell (i : Int64) : CellSteps Stack.Reply := do
  let w ← get
  if i < 0 ∨ Int64.ofNat w.slots.length ≤ i then
    return .content none
  else
    let slot ← fetch i
    return .content slot.cell

def reset : CellSteps Stack.Reply := do
  let w ← get
  forM (List.range w.slots.length) fun i => store (Int64.ofNat i) .empty
  modify fun w => { w with sp := -1 }
  return .done

def perform : Stack.Call → CellSteps Stack.Reply
  | .push v => push v
  | .pop => pop
  | .peek offset => peek offset
  | .cell i => cell i
  | .reset => reset

end WordStack

/-- The stack as words hold it. -/
def Stack.words (s : Stack) : WordStack := ⟨s.slots, Int64.ofInt s.sp⟩

namespace WordStack

theorem bind_run {α β : Type} {first : CellSteps α} {next : α → CellSteps β} {w after : WordStack} {a : α}
    (h : first.run w = some (a, after)) : (first >>= next).run w = (next a).run after := by
  rw [StateT.run_bind, h]
  rfl

theorem get_run (w : WordStack) : (get : CellSteps WordStack).run w = some (w, w) := rfl

theorem set_run (w after : WordStack) : (set after : CellSteps PUnit).run w = some (⟨⟩, after) := rfl

theorem fetch_run {s : Stack} {i : Int64} (hge : 0 ≤ i.toInt) (hlt : i.toInt < s.capacity) :
    ∃ slot, s.slots[i.toInt.toNat]? = some slot ∧ s.cell i.toInt = slot.cell ∧
      (fetch i).run s.words = some (slot, s.words) := by
  have hword : ¬ i < 0 := by rw [lt_zero_iff_toInt]; omega
  have hi : i.toInt.toNat < s.slots.length := by rw [Stack.capacity] at hlt; omega
  have hslot := List.getElem?_eq_getElem hi
  have hentry : entryAt? s.slots i = some s.slots[i.toInt.toNat] := by rw [entryAt?, if_neg hword, hslot]
  refine ⟨_, hslot, ?_, ?_⟩
  · rw [Stack.cell, if_neg (by omega), hslot]
    rfl
  · rw [fetch, bind_run (get_run _), Stack.words, hentry]
    rfl

theorem store_run {w : WordStack} {i : Int64} (content : Slot) (hge : 0 ≤ i.toInt)
    (hlt : i.toInt < w.slots.length) :
    (store i content).run w = some ((), { w with slots := w.slots.set i.toInt.toNat content }) := by
  have hsome : entryAt? w.slots i ≠ none := by
    rw [Ne, entryAt?_eq_none_iff, lt_zero_iff_toInt]
    omega
  obtain ⟨old, hold⟩ := Option.ne_none_iff_exists'.mp hsome
  rw [store, bind_run (get_run _), hold]
  rfl

/-- The loop over the first slots empties them and leaves the others. -/
theorem forM_store_run {w : WordStack} (hw : FitsWord w.slots.length) {n : Nat} (hn : n ≤ w.slots.length) :
    (forM (List.range n) fun i => store (Int64.ofNat i) .empty).run w =
      some ((), { w with slots := List.replicate n .empty ++ w.slots.drop n }) := by
  obtain ⟨-, hlt⟩ := hw
  induction n with
  | zero => simp
  | succ n ih =>
    have hword : (Int64.ofNat n).toInt = n := Int64.toInt_ofNat_of_lt (by omega)
    have hlength : (List.replicate n Slot.empty ++ w.slots.drop n).length = w.slots.length := by
      rw [List.length_append, List.length_replicate, List.length_drop]
      omega
    have hset : (List.replicate n Slot.empty ++ w.slots.drop n).set n .empty =
        List.replicate (n + 1) .empty ++ w.slots.drop (n + 1) := by
      rw [List.set_append_right _ _ (by simp), List.length_replicate, Nat.sub_self,
        List.drop_eq_getElem_cons (by omega), List.set_cons_zero, List.replicate_succ', List.append_assoc]
      rfl
    have hstore := store_run (w := { w with slots := List.replicate n .empty ++ w.slots.drop n }) (i := Int64.ofNat n)
      .empty (by omega) (by rw [hlength, hword]; omega)
    rw [hword, Int.toNat_natCast, hset] at hstore
    rw [List.range_succ, List.forM_append, bind_run (ih (by omega)), List.forM_cons, bind_run hstore]
    rfl

end WordStack

namespace Stack

theorem capacityFor_eq (requested : Int) :
    (capacityFor requested : Int) = if requested < 1 then 10 else requested := by
  unfold capacityFor
  split
  · rfl
  · omega

theorem capacityFor_fits (requested : Int64) : FitsWord (capacityFor requested.toInt) := by
  obtain ⟨-, hlt⟩ := fits_toInt requested
  rw [capacityFor_eq]
  split
  · decide
  · exact ⟨by omega, by omega⟩

theorem words_raised (s : Stack) (slots : List Slot) :
    (Stack.mk slots (s.sp + 1)).words = ⟨slots, s.words.sp + 1⟩ := by
  rw [words, Int64.ofInt_add]
  rfl

theorem words_lowered (s : Stack) (slots : List Slot) :
    (Stack.mk slots (s.sp - 1)).words = ⟨slots, s.words.sp - 1⟩ := by
  rw [words, Int64.ofInt_sub]
  rfl

theorem words_empty (requested : Int64) : (empty requested.toInt).words = WordStack.empty requested := by
  have hword : requested < 1 ↔ requested.toInt < 1 := Int64.lt_iff_toInt_lt
  unfold WordStack.empty Stack.words empty capacityFor
  by_cases h : requested.toInt < 1
  · simp only [if_pos h, if_pos (hword.mpr h)]
    rfl
  · simp only [if_neg h, if_neg (mt hword.mp h)]
    rfl

end Stack

namespace WordStack

variable {s : Stack} (hs : s.Valid) (hc : FitsWord s.capacity)
include hs hc

theorem toInt_sp : s.words.sp.toInt = s.sp := by
  have hge := hs.sp_ge
  have hle := hs.sp_le
  obtain ⟨-, hlt⟩ := hc
  rw [Stack.words, toInt_ofInt_wrapWord]
  exact wrapWord_of_fits ⟨by omega, by omega⟩

omit hs in
theorem toInt_length : (Int64.ofNat s.words.slots.length).toInt = s.capacity := by
  obtain ⟨-, hlt⟩ := hc
  have hn : s.words.slots.length = s.capacity := rfl
  exact Int64.toInt_ofNat_of_lt (by omega)

theorem isFull_iff : s.words.sp = Int64.ofNat s.words.slots.length - 1 ↔ s.isFull = true := by
  have hlength := toInt_length hc
  have hsp := toInt_sp hs hc
  obtain ⟨-, hlt⟩ := hc
  have hone : (1 : Int64).toInt = 1 := rfl
  have hlast : (Int64.ofNat s.words.slots.length - 1).toInt = s.capacity - 1 := by
    rw [toInt_sub_of_fits, hlength, hone]
    rw [hlength, hone]
    exact ⟨by omega, by omega⟩
  rw [← Int64.toInt_inj, hlast, hsp, Stack.isFull, beq_iff_eq]

theorem push_run (v : Int64) :
    (push v).run s.words = some ((s.answer (.push v)).1, (s.answer (.push v)).2.words) := by
  have hge := hs.sp_ge
  have hle := hs.sp_le
  have hsp := toInt_sp hs hc
  have hfull := isFull_iff hs hc
  obtain ⟨-, hlt⟩ := hc
  rw [push, bind_run (get_run _), Stack.answer, Stack.push]
  by_cases h : s.isFull = true
  · rw [if_pos (hfull.mpr h), if_pos h]
    rfl
  · have hroom : s.sp + 1 < s.capacity := by
      rw [Stack.isFull, beq_iff_eq] at h
      omega
    have hone : (1 : Int64).toInt = 1 := rfl
    have hnext : (s.words.sp + 1).toInt = s.sp + 1 := by
      rw [toInt_add_of_fits, hsp, hone]
      rw [hsp, hone]
      exact ⟨by omega, by omega⟩
    have hstore := store_run (w := { s.words with sp := s.words.sp + 1 }) (i := s.words.sp + 1) (.holding v)
      (by rw [hnext]; omega) (by rw [hnext]; exact hroom)
    rw [if_neg (mt hfull.mp h), if_neg h, bind_run (set_run _ _), bind_run hstore, hnext]
    simp only [Stack.words_raised]
    rfl

theorem pop_run : pop.run s.words = some ((s.answer .pop).1, (s.answer .pop).2.words) := by
  have hle := hs.sp_le
  have hsp := toInt_sp hs hc
  have hneg : s.words.sp < 0 ↔ s.sp < 0 := by rw [lt_zero_iff_toInt, hsp]
  rw [pop, bind_run (get_run _), Stack.answer, Stack.pop]
  by_cases h : s.sp < 0
  · rw [if_pos (hneg.mpr h), if_pos h]
    rfl
  · obtain ⟨slot, hslot, -, hfetch⟩ := fetch_run (s := s) (i := s.words.sp) (by omega) (by omega)
    have hstore := store_run (w := s.words) (i := s.words.sp) .empty (by omega) (by
      rw [hsp]
      change s.sp < s.capacity
      omega)
    rw [hsp] at hslot
    rw [if_neg (mt hneg.mp h), if_neg h, bind_run hfetch, bind_run hstore, hsp, hslot]
    simp only [Stack.words_lowered]
    rfl

theorem peek_run (offset : Int64) :
    (peek offset).run s.words = some ((s.answer (.peek offset)).1, (s.answer (.peek offset)).2.words) := by
  have hge := hs.sp_ge
  have hle := hs.sp_le
  have hsp := toInt_sp hs hc
  have hindex : Int64.ofInt (s.sp - offset.toInt) = s.words.sp - offset := by
    rw [Int64.ofInt_sub, Int64.ofInt_toInt]
    rfl
  have hneg : offset < 0 ∨ s.words.sp - offset < 0 ↔ offset.toInt < 0 ∨ (s.words.sp - offset).toInt < 0 := by
    rw [lt_zero_iff_toInt, lt_zero_iff_toInt]
  obtain ⟨-, hlt⟩ := hc
  obtain ⟨-, ho⟩ := fits_toInt offset
  rw [peek, bind_run (get_run _), Stack.answer, Stack.peek, hindex]
  by_cases h : offset.toInt < 0 ∨ (s.words.sp - offset).toInt < 0
  · simp only [if_pos (hneg.mpr h), if_pos h]
    rfl
  · -- with an offset that is not negative the index is at most the stack pointer, and does not wrap
    have hplace : (s.words.sp - offset).toInt = s.sp - offset.toInt := by
      rw [toInt_sub_of_fits, hsp]
      rw [hsp]
      exact ⟨by omega, by omega⟩
    obtain ⟨slot, -, hcell, hfetch⟩ := fetch_run (s := s) (i := s.words.sp - offset) (by omega) (by omega)
    simp only [if_neg (mt hneg.mp h), if_neg h]
    rw [bind_run hfetch, hcell, Slot.cell]
    cases slot.occupied <;> rfl

omit hs in
theorem cell_run (i : Int64) :
    (cell i).run s.words = some ((s.answer (.cell i)).1, (s.answer (.cell i)).2.words) := by
  have hlength := toInt_length hc
  have hword : i < 0 ∨ Int64.ofNat s.words.slots.length ≤ i ↔ i.toInt < 0 ∨ s.capacity ≤ i.toInt := by
    rw [lt_zero_iff_toInt, Int64.le_iff_toInt_le, hlength]
  rw [cell, bind_run (get_run _), Stack.answer]
  by_cases h : i.toInt < 0 ∨ s.capacity ≤ i.toInt
  · have hempty : s.cell i.toInt = none := by
      unfold Stack.cell
      split
      · rfl
      · rw [List.getElem?_eq_none (by rw [Stack.capacity] at h; omega)]
        rfl
    rw [if_pos (hword.mpr h), hempty]
    rfl
  · obtain ⟨slot, -, hcell, hfetch⟩ := fetch_run (s := s) (i := i) (by omega) (by omega)
    rw [if_neg (mt hword.mp h), bind_run hfetch, hcell]
    rfl

omit hs in
theorem reset_run : reset.run s.words = some ((s.answer .reset).1, (s.answer .reset).2.words) := by
  have hloop := forM_store_run (w := s.words) hc (Nat.le_refl _)
  have hslots : s.slots.map (fun _ => Slot.empty) = List.replicate s.words.slots.length .empty := List.map_const' ..
  rw [List.drop_length, List.append_nil, ← hslots] at hloop
  rw [reset, bind_run (get_run _), bind_run hloop]
  rfl

theorem perform_run (call : Stack.Call) :
    (perform call).run s.words = some ((s.answer call).1, (s.answer call).2.words) := by
  cases call with
  | push v => exact push_run hs hc v
  | pop => exact pop_run hs hc
  | peek offset => exact peek_run hs hc offset
  | cell i => exact cell_run hc i
  | reset => exact reset_run hc

end WordStack

namespace BoundedList

variable {capacity : Nat} (hc : FitsWord capacity) (l : BoundedList capacity)
include hc

theorem perform_toStack (call : Stack.Call) :
    (WordStack.perform call).run l.toStack.words = some ((l.answer call).1, (l.answer call).2.toStack.words) := by
  have hvalid : l.toStack.Valid := Stack.valid_ofValues l.fits
  have hcapacity : l.toStack.capacity = capacity := Stack.capacity_ofValues l.fits
  rw [WordStack.perform_run hvalid (by rw [hcapacity]; exact hc), l.toStack_answer hc]

theorem mapM_perform_toStack (calls : List Stack.Call) :
    (calls.mapM WordStack.perform).run l.toStack.words =
      some ((l.answers calls).1, (l.answers calls).2.toStack.words) := by
  induction calls generalizing l with
  | nil => rfl
  | cons call calls ih =>
    rw [List.mapM_cons, WordStack.bind_run (l.perform_toStack hc call), WordStack.bind_run (ih _)]
    rfl

end BoundedList

/-- The stack is a list of at most as many values as it has cells. Whatever calls are made on a new stack, the replies
are those of the list, and the stack that is left is described by the list that is left. With the pointer held as a word
and each index checked against the cells the calls go the same way: no index is ever outside, whatever the offsets and
indices given, and a call that is refused or that only reads leaves all as it was. -/
theorem stack_refines_bounded_list (requested : Int64) (calls : List Stack.Call) :
    let l := ((BoundedList.empty (Stack.capacityFor requested.toInt)).answers calls).2
    let replies := ((BoundedList.empty (Stack.capacityFor requested.toInt)).answers calls).1
    let s := ((Stack.empty requested.toInt).answers calls).2
    (s.capacity : Int) = (if requested.toInt < 1 then 10 else requested.toInt) ∧
      ((Stack.empty requested.toInt).answers calls).1 = replies ∧ l.Describes s ∧
      (calls.mapM WordStack.perform).run (WordStack.empty requested) = some (replies, s.words) ∧
      ∀ call, ∃ reply after, (WordStack.perform call).run s.words = some (reply, after) ∧
        reply = (s.answer call).1 ∧ after = (s.answer call).2.words ∧
        (reply.isRefusal ∨ call.onlyReads → after = s.words) := by
  intro l replies s
  have hc := Stack.capacityFor_fits requested
  have hempty : Stack.empty requested.toInt = (BoundedList.empty (Stack.capacityFor requested.toInt)).toStack :=
    Stack.empty_eq_ofValues _
  have hrun : (Stack.empty requested.toInt).answers calls = (replies, l.toStack) := by
    rw [hempty, BoundedList.toStack_answers hc]
  have hs : s = l.toStack := congrArg Prod.snd hrun
  have hdescribes : l.Describes s := by
    rw [hs]
    exact l.describes_toStack hc
  refine ⟨?_, congrArg Prod.fst hrun, hdescribes, ?_, fun call => ?_⟩
  · rw [hdescribes.capacity_eq]
    exact Stack.capacityFor_eq _
  · rw [← Stack.words_empty, hempty, hs]
    exact BoundedList.mapM_perform_toStack hc _ calls
  · refine ⟨_, _, ?_, rfl, rfl, fun h => ?_⟩
    · rw [hs, l.perform_toStack hc, l.toStack_answer hc]
    · rw [s.answer_unmoved h]

end StackMachine
