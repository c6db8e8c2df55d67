import StackMachine.Error

namespace StackMachine

/-- What a slot of the stack shows. An empty one is distinct from one that holds zero. -/
abbrev Cell := Option Int64

def Cell.text (cell : Cell) : Bytes := (cell.map value).getD (utf8 "--")

/-- A slot of the stack as it is stored. -/
structure Slot where
  value : Int64 := 0
  occupied : Bool := false
  deriving DecidableEq

namespace Slot

def empty : Slot := {}

def holding (v : Int64) : Slot := ⟨v, true⟩

def cell (slot : Slot) : Cell := if slot.occupied then some slot.value else none

end Slot

def defaultCapacity : Nat := 10

/-- Slots from the bottom up; `sp` is the index of the topmost occupied one and -1 when there is none. -/
structure Stack where
  slots : List Slot
  sp : Int
  deriving DecidableEq

namespace Stack

/-- The number of slots that a requested capacity gives: the default when it is below one. -/
def capacityFor (requested : Int) : Nat := if requested < 1 then defaultCapacity else requested.toNat

def empty (requested : Int) : Stack := ⟨List.replicate (capacityFor requested) .empty, -1⟩

def capacity (s : Stack) : Nat := s.slots.length

/-- The number of occupied slots. -/
def size (s : Stack) : Int := s.sp + 1

def isFull (s : Stack) : Bool := s.sp == s.capacity - 1

def cells (s : Stack) : List Cell := s.slots.map Slot.cell

/-- The cell at an index; outside the stack every cell reads as empty. -/
def cell (s : Stack) (i : Int) : Cell := if i < 0 then none else (s.slots[i.toNat]?).bind Slot.cell

def push (s : Stack) (v : Int64) : Except Kind Stack :=
  if s.isFull then .error .stackOverflow
  else .ok ⟨s.slots.set (s.sp + 1).toNat (.holding v), s.sp + 1⟩

/-- Removes the top value and leaves its slot empty. -/
def pop (s : Stack) : Except Kind (Int64 × Stack) :=
  if s.sp < 0 then .error .stackUnderflow
  else .ok ((s.slots[s.sp.toNat]?.getD .empty).value, ⟨s.slots.set s.sp.toNat .empty, s.sp - 1⟩)

/-- The value some slots below the top. Its index is a word, and is computed before the offset is looked at. -/
def peek (s : Stack) (offset : Int) : Except Kind Int64 :=
  let i := (Int64.ofInt (s.sp - offset)).toInt
  if offset < 0 ∨ i < 0 then .error .stackUnderflow
  else match s.cell i with
    | some v => .ok v
    | none => .error .stackUnderflow

/-- Empties every slot and keeps the capacity. -/
def reset (s : Stack) : Stack := ⟨s.slots.map fun _ => .empty, -1⟩

end Stack

end StackMachine
