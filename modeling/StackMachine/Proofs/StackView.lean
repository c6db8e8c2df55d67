import StackMachine.Commitment

namespace StackMachine

attribute [ext] Slot

/-- Slots that show the same are the same if they hold zero when they are empty. -/
theorem Slot.eq_of_cell {slot other : Slot} (hslot : slot.occupied = false → slot.value = 0)
    (hother : other.occupied = false → other.value = 0) (h : slot.cell = other.cell) : slot = other := by
  cases ho : slot.occupied with
  | true =>
    cases ho' : other.occupied with
    | true =>
      simp only [Slot.cell, ho, ho', if_true, Option.some.injEq] at h
      exact Slot.ext h (ho.trans ho'.symm)
    | false => simp [Slot.cell, ho, ho'] at h
  | false =>
    cases ho' : other.occupied with
    | true => simp [Slot.cell, ho, ho'] at h
    | false => exact Slot.ext ((hslot ho).trans (hother ho').symm) (ho.trans ho'.symm)

namespace Stack

attribute [ext] Stack

/-- The occupied slots are those up to the stack pointer, which lies inside the stack or just below it, and the others
hold zero. -/
structure Valid (s : Stack) : Prop where
  sp_ge : -1 ≤ s.sp
  sp_le : s.sp ≤ s.capacity - 1
  occupied_iff : ∀ i : Nat, i < s.capacity → ((s.cell i).isSome ↔ i ≤ s.sp)
  zero : ∀ slot ∈ s.slots, slot.occupied = false → slot.value = 0

/-- The values on the stack, top first. -/
def values (s : Stack) : List Int64 := (s.cells.filterMap id).reverse

/-- The stack of a capacity that holds some values, given top first. -/
def ofValues (capacity : Nat) (vs : List Int64) : Stack :=
  ⟨vs.reverse.map .holding ++ List.replicate (capacity - vs.length) .empty, vs.length - 1⟩

@[simp] theorem sp_ofValues (capacity : Nat) (vs : List Int64) : (ofValues capacity vs).sp = vs.length - 1 := rfl

theorem length_cells (s : Stack) : s.cells.length = s.capacity := List.length_map _

theorem cells_ofValues (capacity : Nat) (vs : List Int64) :
    (ofValues capacity vs).cells = vs.reverse.map some ++ List.replicate (capacity - vs.length) none := by
  rw [cells, ofValues, List.map_append, List.map_map, List.map_replicate]
  rfl

theorem capacity_ofValues {capacity : Nat} {vs : List Int64} (hv : vs.length ≤ capacity) :
    (ofValues capacity vs).capacity = capacity := by
  simp only [Stack.capacity, ofValues, List.length_append, List.length_map, List.length_reverse,
    List.length_replicate]
  omega

@[simp] theorem values_ofValues (capacity : Nat) (vs : List Int64) : (ofValues capacity vs).values = vs := by
  have hnone : (List.replicate (capacity - vs.length) (none : Cell)).filterMap id = [] :=
    List.filterMap_replicate_of_none rfl
  rw [values, cells_ofValues, List.filterMap_append, hnone]
  simp

theorem cell_slots (s : Stack) (i : Nat) : s.cell i = (s.slots[i]?).bind Slot.cell := by
  have hi : ¬ ((i : Int) < 0) := by omega
  rw [cell, if_neg hi, Int.toNat_natCast]

theorem cell_natCast (s : Stack) (i : Nat) : s.cell i = (s.cells[i]?).join := by
  rw [cell_slots, cells, List.getElem?_map]
  cases s.slots[i]? <;> rfl

/-- Counted from the bottom, a cell holds the value at its place, and nothing beyond the last value. -/
theorem cell_ofValues (capacity : Nat) (vs : List Int64) (i : Nat) :
    (ofValues capacity vs).cell i = vs.reverse[i]? := by
  rw [cell_natCast, cells_ofValues]
  by_cases hl : i < vs.length
  · rw [List.getElem?_append_left (by simpa using hl), List.getElem?_map]
    rw [List.getElem?_eq_getElem (by simpa using hl)]
    rfl
  · have hr : vs.length ≤ i := by omega
    have hn : vs.reverse[i]? = none := List.getElem?_eq_none (by simpa using hr)
    rw [List.getElem?_append_right (by simpa using hr), hn, List.getElem?_replicate]
    split
    · rfl
    · rfl

theorem cell_top (capacity : Nat) (a : Int64) (vs : List Int64) :
    (ofValues capacity (a :: vs)).cell (ofValues capacity (a :: vs)).sp = some a := by
  have hs : (ofValues capacity (a :: vs)).sp = (vs.length : Nat) := by simp
  rw [hs, cell_ofValues]
  simp

theorem cell_second (capacity : Nat) (a b : Int64) (vs : List Int64) :
    (ofValues capacity (a :: b :: vs)).cell ((ofValues capacity (a :: b :: vs)).sp - 1) = some b := by
  have hs : (ofValues capacity (a :: b :: vs)).sp - 1 = (vs.length : Nat) := by simp
  rw [hs, cell_ofValues]
  simp

theorem isFull_ofValues {capacity : Nat} {vs : List Int64} (hv : vs.length ≤ capacity) :
    (ofValues capacity vs).isFull = true ↔ vs.length = capacity := by
  simp only [isFull, sp_ofValues, capacity_ofValues hv, beq_iff_eq]
  omega

theorem pop_ofValues_nil (capacity : Nat) : (ofValues capacity []).pop = .error .stackUnderflow := rfl

theorem pop_ofValues_cons {capacity : Nat} {a : Int64} {vs : List Int64} (hv : (a :: vs).length ≤ capacity) :
    (ofValues capacity (a :: vs)).pop = .ok (a, ofValues capacity vs) := by
  have hs : ¬ (ofValues capacity (a :: vs)).sp < 0 := by simp
  have hc : capacity - vs.length = capacity - (vs.length + 1) + 1 := by simp at hv; omega
  have htop : (ofValues capacity (a :: vs)).slots[(ofValues capacity (a :: vs)).sp.toNat]? = some (.holding a) := by
    simp [ofValues]
  have hset : (ofValues capacity (a :: vs)).slots.set (ofValues capacity (a :: vs)).sp.toNat .empty =
      (ofValues capacity vs).slots := by
    simp [ofValues, hc, List.replicate_succ]
  rw [pop, if_neg hs, htop, hset]
  simp [ofValues, Slot.holding]

theorem push_ofValues_full {capacity : Nat} {vs : List Int64} (v : Int64) (hv : vs.length = capacity) :
    (ofValues capacity vs).push v = .error .stackOverflow := by
  rw [push, if_pos ((isFull_ofValues (by omega)).mpr hv)]

theorem push_ofValues {capacity : Nat} {vs : List Int64} (v : Int64) (hv : vs.length < capacity) :
    (ofValues capacity vs).push v = .ok (ofValues capacity (v :: vs)) := by
  have hf : ¬ (ofValues capacity vs).isFull = true := by
    rw [isFull_ofValues (by omega)]
    omega
  rw [push, if_neg hf]
  have hc : capacity - vs.length = capacity - (vs.length + 1) + 1 := by omega
  simp [ofValues, hc, List.replicate_succ]

theorem reset_ofValues {capacity : Nat} {vs : List Int64} (hv : vs.length ≤ capacity) :
    (ofValues capacity vs).reset = ofValues capacity [] := by
  have hl : (ofValues capacity vs).slots.length = capacity := capacity_ofValues hv
  have hm : (ofValues capacity vs).slots.map (fun _ => Slot.empty) = List.replicate capacity .empty := by
    rw [List.map_const', hl]
  rw [reset, hm]
  simp [ofValues]

theorem empty_eq_ofValues (requested : Int) : empty requested = ofValues (capacityFor requested) [] := by
  simp [empty, ofValues]

theorem dropTops_ofValues {capacity : Nat} {vs : List Int64} (n : Nat) (hv : vs.length ≤ capacity)
    (hn : n ≤ vs.length) : (ofValues capacity vs).dropTops n = ofValues capacity (vs.drop n) := by
  induction n generalizing vs with
  | zero => rfl
  | succ n ih =>
    cases vs with
    | nil => simp at hn
    | cons a vs =>
      simp only [List.length_cons] at hv hn
      have hd : (ofValues capacity (a :: vs)).dropTop = ofValues capacity vs := by
        rw [dropTop, pop_ofValues_cons (by simpa using hv)]
      rw [dropTops, hd, ih (by omega) (by omega), List.drop_succ_cons]

theorem putTop_ofValues {capacity : Nat} {vs : List Int64} (v : Int64) (hv : vs.length < capacity) :
    (ofValues capacity vs).putTop v = ofValues capacity (v :: vs) := by
  rw [putTop, push_ofValues v hv]

theorem valid_ofValues {capacity : Nat} {vs : List Int64} (hv : vs.length ≤ capacity) :
    (ofValues capacity vs).Valid := by
  refine ⟨by rw [sp_ofValues]; omega, ?_, ?_, ?_⟩
  · rw [capacity_ofValues hv, sp_ofValues]
    omega
  · intro i _
    rw [cell_ofValues, sp_ofValues, isSome_getElem?]
    simp only [List.length_reverse]
    omega
  · intro slot hslot hempty
    rcases List.mem_append.mp hslot with hheld | hrest
    · obtain ⟨v, _, rfl⟩ := List.mem_map.mp hheld
      cases hempty
    · rw [List.eq_of_mem_replicate hrest]
      rfl

/-- Every valid stack is the picture of the list of its values. -/
theorem Valid.exists_values {s : Stack} (hs : s.Valid) :
    ∃ vs : List Int64, vs.length ≤ s.capacity ∧ s = ofValues s.capacity vs := by
  have hge := hs.sp_ge
  have hle := hs.sp_le
  let vs := ((List.range (s.sp + 1).toNat).map fun i : Nat => (s.cell i).getD 0).reverse
  have hlen : vs.length = (s.sp + 1).toNat := by simp [vs]
  have hfit : vs.length ≤ s.capacity := by omega
  refine ⟨vs, hfit, ?_⟩
  have hsp : s.sp = (ofValues s.capacity vs).sp := by rw [sp_ofValues]; omega
  have hslots : s.slots = (ofValues s.capacity vs).slots := by
    apply List.ext_getElem
    · exact (capacity_ofValues hfit).symm
    · intro i hi hi'
      -- two slots without a value, or with the same one, are the same, as an empty one holds zero
      apply Slot.eq_of_cell (hs.zero _ (List.getElem_mem hi))
        ((valid_ofValues hfit).zero _ (List.getElem_mem hi'))
      have hleft : s.cell i = s.slots[i].cell := by rw [cell_slots, List.getElem?_eq_getElem hi]; rfl
      have hright : (ofValues s.capacity vs).cell i = (ofValues s.capacity vs).slots[i].cell := by
        rw [cell_slots, List.getElem?_eq_getElem hi']
        rfl
      rw [← hleft, ← hright, cell_ofValues]
      have hocc := hs.occupied_iff i hi
      by_cases hio : (i : Int) ≤ s.sp
      · have hlt : i < (s.sp + 1).toNat := by omega
        obtain ⟨v, hv⟩ := Option.isSome_iff_exists.mp (hocc.mpr hio)
        simp [vs, hlt, hv]
      · have hno : s.cell i = none := by simpa [hio] using hocc
        have hge : vs.reverse.length ≤ i := by rw [List.length_reverse]; omega
        rw [hno, List.getElem?_eq_none hge]
  exact Stack.ext hslots hsp

namespace Valid

variable {s : Stack} (hs : s.Valid)
include hs

theorem eq_ofValues : s.values.length ≤ s.capacity ∧ s = ofValues s.capacity s.values := by
  obtain ⟨vs, hv, he⟩ := hs.exists_values
  have hvs : s.values = vs := by rw [he, values_ofValues]
  rw [hvs]
  exact ⟨hv, he⟩

theorem sp_eq : s.sp = s.values.length - 1 := by
  rw [hs.eq_ofValues.2, sp_ofValues, values_ofValues]

theorem cell_sp : s.cell s.sp = s.values.head? := by
  obtain ⟨vs, _, he⟩ := hs.exists_values
  rw [he, values_ofValues]
  cases vs with
  | nil => rfl
  | cons a vs => rw [cell_top]; rfl

theorem cell_below_sp : s.cell (s.sp - 1) = s.values.tail.head? := by
  obtain ⟨vs, _, he⟩ := hs.exists_values
  rw [he, values_ofValues]
  match vs with
  | [] | [_] => rfl
  | a :: b :: vs => rw [cell_second]; rfl

end Valid

end Stack

end StackMachine
