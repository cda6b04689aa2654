import Stackwright.Word

/-!
# Binary operations on words

Eight of the machine's operations take two words off the stack and leave one.
Sums, differences and products wrap around; division truncates toward zero, and
the remainder has the sign of the dividend; comparisons give `1` or `0`. Only the
two divisions can fail, and only by a zero divisor.
-/

namespace Stackwright

/-- An operation on the two topmost words of the stack. -/
inductive BinaryOp where
  | add
  | sub
  | mul
  | div
  | mod
  | eq
  | lt
  | gt
  deriving DecidableEq, Repr

/-- The result for `a`, the lower word, and `b`, the top one. There is none for a
division by zero. The one quotient that is no word, that of the least word by
`-1`, wraps around to the least word. -/
def BinaryOp.apply (op : BinaryOp) (a b : Word) : Option Word :=
  match op with
  | .add => some (a + b)
  | .sub => some (a - b)
  | .mul => some (a * b)
  | .div => if b = 0 then none else some (a / b)
  | .mod => if b = 0 then none else some (a % b)
  | .eq => some (Word.ofBool (a == b))
  | .lt => some (Word.ofBool (decide (a < b)))
  | .gt => some (Word.ofBool (decide (b < a)))

namespace BinaryOp

/-! ## Comparisons -/

theorem apply_eq (a b : Word) : eq.apply a b = some (if a = b then 1 else 0) :=
  congrArg some (Word.ofBool_decide (a = b))

theorem apply_lt (a b : Word) : lt.apply a b = some (if a < b then 1 else 0) :=
  congrArg some (Word.ofBool_decide (a < b))

theorem apply_gt (a b : Word) : gt.apply a b = some (if b < a then 1 else 0) :=
  congrArg some (Word.ofBool_decide (b < a))

end BinaryOp

end Stackwright
