import ScopeMachine.Function
import ScopeMachine.OperandStack

/-! # Frames

A frame is one activation of a function: its locals, its position and the scopes it has open. The
function body itself is the outermost scope. It cannot be left, only finished, so the frame keeps
its operand stack apart from the scopes that instructions have opened, and `scopes` lists them all.
An operand is always one of the innermost scope: what a scope leaves behind on its own stack is gone
when it is left, and the stacks around it stay as they were.
-/

namespace ScopeMachine

/-- An open scope. -/
structure Scope where
  stack : OperandStack := .empty
  type : BlockType
  /-- Where a branch to the scope continues. -/
  target : Nat
  deriving DecidableEq, Repr, Inhabited

/-- One activation of a function. -/
structure Frame where
  function : Function
  /-- The operands outside of all scopes that instructions have opened. -/
  base : OperandStack := .empty
  /-- The scopes that instructions have opened, the innermost first. -/
  inner : List Scope := []
  /-- The values of the local slots. -/
  locals : List Value
  /-- The position of the next instruction. -/
  pc : Nat := 0
  deriving DecidableEq, Repr, Inhabited

namespace Frame

/-- A frame at the start of a function, all locals zero. -/
def ofFunction (f : Function) : Frame := { function := f, locals := f.slots.map ValueType.zero }

/-- The next instruction. -/
def instruction? (f : Frame) : Option Instruction := f.function.body[f.pc]?

/-- A frame is finished at the end of its body. -/
def finished (f : Frame) : Bool := f.pc == f.function.size

/-- Continues at the given position. -/
def goto (pc : Nat) (f : Frame) : Frame := { f with pc }

/-- Continues at the end of the body. -/
def finish (f : Frame) : Frame := f.goto f.function.size

/-- The scope that the function body is. -/
def root (f : Frame) : Scope :=
  { stack := f.base, type := f.function.blockType, target := f.function.size }

/-- All open scopes, the innermost first. -/
def scopes (f : Frame) : List Scope := f.inner ++ [f.root]

/-- The number of open scopes, which is never zero. -/
def depth (f : Frame) : Nat := f.inner.length + 1

/-- The operands of the innermost scope. -/
def stack (f : Frame) : OperandStack :=
  match f.inner with
  | [] => f.base
  | scope :: _ => scope.stack

/-- Gives the innermost scope another stack. -/
def withStack (s : OperandStack) (f : Frame) : Frame :=
  match f.inner with
  | [] => { f with base := s }
  | scope :: outer => { f with inner := { scope with stack := s } :: outer }

/-- Puts an operand on the innermost stack. -/
def push (v : Value) (f : Frame) : Frame := f.withStack (f.stack.push v)

/-- Puts values on the innermost stack, the first of them lowest. -/
def extend (values : List Value) (f : Frame) : Frame := f.withStack (f.stack.extend values)

/-- Takes the top operand. -/
def pop (f : Frame) : Except Error (Value × Frame) :=
  f.stack.pop.map fun (v, below) => (v, f.withStack below)

/-- The top operand. -/
def peek (f : Frame) : Except Error Value := f.stack.peek

/-- Takes the top `n` operands, given from the bottom to the top. -/
def popN (n : Nat) (f : Frame) : Except Error (List Value × Frame) :=
  (f.stack.popN n).map fun (values, below) => (values, f.withStack below)

/-- Opens a scope with an empty stack. -/
def enter (type : BlockType) (target : Nat) (f : Frame) : Frame :=
  { f with inner := { type, target } :: f.inner }

/-- Leaves the innermost scope, which is returned. Leaving the function body finishes the frame and
keeps its operands. -/
def leave (f : Frame) : Option Scope × Frame :=
  match f.inner with
  | [] => (none, f.finish)
  | scope :: outer => (some scope, { f with inner := outer })

/-- Leaves the scope that the label counts from the inside, with all scopes in it, and continues at
its target. The label after the last of them is that of the function body, which finishes the frame
and keeps its operands. -/
def branch (label : UInt32) (f : Frame) : Except Error Frame :=
  match f.inner[label.toNat]? with
  | some scope => .ok { f with inner := f.inner.drop (label.toNat + 1), pc := scope.target }
  | none =>
    if label.toNat = f.inner.length then .ok { f with inner := [], pc := f.function.size }
    else .error (.unknownLabel label)

/-- Leaves the innermost scope and continues at its target. -/
def exit (f : Frame) : Frame :=
  match f.leave with
  | (some scope, rest) => rest.goto scope.target
  | (none, rest) => rest

/-- Passes over the scope of the condition at `pc`, or takes its alternative if there is one. -/
def enterElse (pc : Nat) (type : BlockType) (f : Frame) : Frame :=
  match f.function.matchingElse pc with
  | some elsePc => (f.goto (elsePc + 1)).enter type (f.function.afterEnd pc)
  | none => f.goto (f.function.afterEnd pc)

/-- The value of a local slot. -/
def getLocal (index : UInt32) (f : Frame) : Except Error Value :=
  match f.locals[index.toNat]? with
  | some v => .ok v
  | none => .error (.unknownLocal index)

/-- Sets a local slot. -/
def setLocal (index : UInt32) (v : Value) (f : Frame) : Except Error Frame :=
  if index.toNat < f.locals.length then
    .ok { f with locals := f.locals.set index.toNat v }
  else .error (.unknownLocal index)

/-- Puts the arguments of a call into the first local slots. -/
def bindArgs (args : List Value) (f : Frame) : Except Error Frame :=
  if args.length = f.function.params.length then
    .ok { f with locals := args ++ f.locals.drop args.length }
  else .error .argumentCount

/-- What the frame hands to its caller: the operands of the innermost scope. -/
def results (f : Frame) : List Value := f.stack.toList

@[simp] theorem stack_withStack (s : OperandStack) (f : Frame) : (f.withStack s).stack = s := by
  unfold withStack stack
  cases f.inner <;> rfl

@[simp] theorem function_withStack (s : OperandStack) (f : Frame) :
    (f.withStack s).function = f.function := by
  unfold withStack
  cases f.inner <;> rfl

@[simp] theorem locals_withStack (s : OperandStack) (f : Frame) :
    (f.withStack s).locals = f.locals := by
  unfold withStack
  cases f.inner <;> rfl

@[simp] theorem pc_withStack (s : OperandStack) (f : Frame) : (f.withStack s).pc = f.pc := by
  unfold withStack
  cases f.inner <;> rfl

theorem length_scopes (f : Frame) : f.scopes.length = f.depth := by
  simp [scopes, depth]

end Frame

end ScopeMachine
