import ScopeMachine.Value

/-! # Operators

The machine's operators take two values and leave one. Comparisons are signed and leave one or zero;
sums, differences and products wrap around; a quotient is truncated toward zero and does not exist
when the divisor is zero. The quotient of the least value by -1 wraps around to the least value.
-/

namespace ScopeMachine

/-- The operators on two values. -/
inductive BinaryOp where
  | eq
  | ne
  | lt
  | gt
  | le
  | ge
  | add
  | sub
  | mul
  | div
  deriving DecidableEq, Repr, Inhabited

namespace BinaryOp

def name : BinaryOp → String
  | eq => "i32.eq"
  | ne => "i32.ne"
  | lt => "i32.lt_s"
  | gt => "i32.gt_s"
  | le => "i32.le_s"
  | ge => "i32.ge_s"
  | add => "i32.add"
  | sub => "i32.sub"
  | mul => "i32.mul"
  | div => "i32.div_s"

def opcode : BinaryOp → UInt8
  | eq => 0x46
  | ne => 0x47
  | lt => 0x48
  | gt => 0x4a
  | le => 0x4c
  | ge => 0x4e
  | add => 0x6a
  | sub => 0x6b
  | mul => 0x6c
  | div => 0x6d

/-- The value of an operator on its left and right operand; a quotient by zero has none. -/
def eval? : BinaryOp → Value → Value → Option Value
  | eq, a, b => some (.ofBool (a == b))
  | ne, a, b => some (.ofBool (a != b))
  | lt, a, b => some (.ofBool (a < b))
  | gt, a, b => some (.ofBool (b < a))
  | le, a, b => some (.ofBool (a ≤ b))
  | ge, a, b => some (.ofBool (b ≤ a))
  | add, a, b => some (a + b)
  | sub, a, b => some (a - b)
  | mul, a, b => some (a * b)
  | div, a, b => if b = 0 then none else some (a / b)

/-- Only a quotient by zero has no value. -/
theorem eval?_eq_none_iff {op : BinaryOp} {left right : Value} :
    op.eval? left right = none ↔ op = div ∧ right = 0 := by
  cases op <;> simp [eval?]

end BinaryOp

end ScopeMachine
