import StackMachine.Instruction

namespace StackMachine

def sumOverflows (b a : Int64) : Bool :=
  (0 < a && Int64.maxValue - a < b) || (a < 0 && b < Int64.minValue - a)

def differenceOverflows (b a : Int64) : Bool :=
  (a < 0 && Int64.maxValue + a < b) || (0 < a && b < Int64.minValue + a)

/-- For factors other than zero. -/
def productOverflows (b a : Int64) : Bool :=
  b * a / a != b || (a == -1 && b == Int64.minValue) || (b == -1 && a == Int64.minValue)

/-- Computes `b` and then `a` under an operation, where `a` is the top of the stack and `b` the value below it. -/
def BinaryOp.apply (f : BinaryOp) (b a : Int64) : Except Cause Int64 :=
  let overflow := .error (.overflow b f.symbol a)
  match f with
  | .add => if sumOverflows b a then overflow else .ok (b + a)
  | .sub => if differenceOverflows b a then overflow else .ok (b - a)
  | .mul =>
    if a == 0 || b == 0 then .ok 0
    else if productOverflows b a then overflow
    else .ok (b * a)
  | .div =>
    if a == 0 then .error (.zeroDivisor b)
    else if a == -1 && b == Int64.minValue then overflow
    else .ok (b / a)
  | .less => .ok (if b < a then 1 else 0)

end StackMachine
