import StackMachine.Register

namespace StackMachine

structure RegisterFile where
  values : Vector Int64 12
  deriving DecidableEq

namespace RegisterFile

/-- Every register holds zero. -/
def zero : RegisterFile := ⟨Vector.replicate 12 0⟩

def get (file : RegisterFile) (r : Register) : Int64 := file.values[r.index]

def set (file : RegisterFile) (r : Register) (v : Int64) : RegisterFile :=
  ⟨file.values.set r.index v⟩

/-- The values in display order. -/
def toList (file : RegisterFile) : List Int64 := file.values.toList

end RegisterFile

end StackMachine
