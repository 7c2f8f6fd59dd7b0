import ScopeMachine.Error
import ScopeMachine.Value

/-! # Operand stacks

Every scope computes on a stack of its own. `toList` lists a stack from the bottom to the top, and
each operation is described by what it does to that list. Taking from a stack fails without taking
anything when the values are not there.
-/

namespace ScopeMachine

/-- The operands of one scope, the top first. -/
structure OperandStack where
  topFirst : List Value := []
  deriving DecidableEq, Repr, Inhabited

namespace OperandStack

/-- The stack without values. -/
def empty : OperandStack := {}

/-- The values from the bottom to the top. -/
def toList (s : OperandStack) : List Value := s.topFirst.reverse

/-- The stack that holds the given values from the bottom to the top. -/
def ofList (values : List Value) : OperandStack := ⟨values.reverse⟩

/-- The number of values. -/
def size (s : OperandStack) : Nat := s.topFirst.length

def isEmpty (s : OperandStack) : Bool := s.topFirst.isEmpty

/-- Puts a value on top. -/
def push (v : Value) (s : OperandStack) : OperandStack := ⟨v :: s.topFirst⟩

/-- Puts the given values on top, the first of them lowest. -/
def extend (values : List Value) (s : OperandStack) : OperandStack :=
  ⟨values.reverse ++ s.topFirst⟩

/-- The top value and the stack below it. -/
def pop (s : OperandStack) : Except Error (Value × OperandStack) :=
  match s.topFirst with
  | [] => .error .stackUnderflow
  | v :: below => .ok (v, ⟨below⟩)

/-- The top value. -/
def peek (s : OperandStack) : Except Error Value :=
  match s.topFirst with
  | [] => .error .stackUnderflow
  | v :: _ => .ok v

/-- The top `n` values from the bottom to the top, and the stack below them. -/
def popN (n : Nat) (s : OperandStack) : Except Error (List Value × OperandStack) :=
  if n ≤ s.size then .ok ((s.topFirst.take n).reverse, ⟨s.topFirst.drop n⟩)
  else .error .stackUnderflow

@[simp] theorem toList_empty : empty.toList = [] := rfl

@[simp] theorem toList_ofList (values : List Value) : (ofList values).toList = values := by
  simp [ofList, toList]

@[simp] theorem toList_push (v : Value) (s : OperandStack) :
    (s.push v).toList = s.toList ++ [v] := by
  simp [push, toList]

@[simp] theorem toList_extend (values : List Value) (s : OperandStack) :
    (s.extend values).toList = s.toList ++ values := by
  simp [extend, toList]

theorem length_toList (s : OperandStack) : s.toList.length = s.size := by
  simp [toList, size]

theorem extend_push (values : List Value) (v : Value) (s : OperandStack) :
    (s.push v).extend values = s.extend (v :: values) := by
  simp [extend, push]

theorem pop_push (v : Value) (s : OperandStack) : (s.push v).pop = .ok (v, s) := rfl

/-- Values put on a stack are taken off again as they were given. -/
theorem popN_extend (values : List Value) (s : OperandStack) :
    (s.extend values).popN values.length = .ok (values, s) := by
  simp [popN, extend, size, List.take_left' values.length_reverse,
    List.drop_left' values.length_reverse]

end OperandStack

end ScopeMachine
