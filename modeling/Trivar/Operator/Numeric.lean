import Trivar.Operator
import Trivar.Number

/-!
Operations on numbers. The four arithmetic operations fold any positive count
of operands from the left. Sums of reciprocals start from the integer zero and
divide the double one by each operand in turn.
-/

namespace Trivar.Operator

/-- A fold from the left that begins with the first operand. -/
def foldOperands (f : Number → Number → Except EvalError Number) :
    List Number → Except EvalError Number
  | [] => .error .noOperands
  | operand :: operands => operands.foldlM f operand

def addReciprocal (sum a : Number) : Except EvalError Number := do
  let reciprocal ← Number.div (.double (.ofInt 1)) a
  sum.add reciprocal

def reciprocalSumOf (operands : List Number) : Except EvalError Number :=
  operands.foldlM addReciprocal (.int 0)

/-- The value of an operation. The harmonic mean divides its own number of arguments by the sum
of the reciprocals of the operands given. -/
def apply : Operator → List Number → Except EvalError Number
  | .add, operands => foldOperands Number.add operands
  | .sub, operands => foldOperands Number.sub operands
  | .mul, operands => foldOperands Number.mul operands
  | .div, operands => foldOperands Number.div operands
  | .negate, operand :: _ => .ok operand.neg
  | .negate, [] => .error .noOperands
  | .reciprocalSum _, operands => reciprocalSumOf operands
  | .harmonicMean extra, operands => do
    let sum ← reciprocalSumOf operands
    Number.div (.int (extra.val + 2 : Nat)) sum

end Trivar.Operator
