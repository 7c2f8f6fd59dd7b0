import ScopeMachine.Machine.Basic

/-! # Executing instructions

All instructions but a call see only the active frame and the globals, so their effect is an
operation on that pair. As on the whole machine, an instruction that fails leaves behind what it has
changed up to then: the operands that it has already taken are gone.
-/

namespace ScopeMachine

/-- The active frame with the globals. -/
structure Workspace where
  frame : Frame
  globals : List Value
  deriving DecidableEq, Repr, Inhabited

namespace Workspace

/-- What an instruction does to the active frame and the globals. -/
abbrev Effect := EStateM Error Workspace

/-- Changes the frame. -/
def onFrame (change : Frame → Frame) : Effect Unit :=
  modify fun w => { w with frame := change w.frame }

/-- Reads from the frame. -/
def ask (query : Frame → Except Error α) : Effect α := fun w =>
  match query w.frame with
  | .ok a => .ok a w
  | .error e => .error e w

/-- Changes the frame, if the change succeeds. -/
def tryFrame (change : Frame → Except Error Frame) : Effect Unit := fun w =>
  match change w.frame with
  | .ok frame => .ok () { w with frame }
  | .error e => .error e w

/-- Takes the top operand. -/
def pop : Effect Value := fun w =>
  match w.frame.pop with
  | .ok (v, frame) => .ok v { w with frame }
  | .error e => .error e w

/-- Puts an operand on top. -/
def push (v : Value) : Effect Unit := onFrame (·.push v)

/-- Takes a condition, which holds unless it is zero. -/
def popCondition : Effect Bool := return (← pop) ≠ 0

/-- Reads a global. -/
def global (index : UInt32) : Effect Value := fun w =>
  match w.globals[index.toNat]? with
  | some v => .ok v w
  | none => .error (.unknownGlobal index) w

/-- Writes a global that is known to exist. -/
def setGlobal (index : UInt32) (v : Value) : Effect Unit :=
  modify fun w => { w with globals := w.globals.set index.toNat v }

/-- Applies an operator to the two operands on top, the right one uppermost. -/
def binary (op : BinaryOp) : Effect Unit := do
  let right ← pop
  let left ← pop
  match op.eval? left right with
  | some v => push v
  | none => throw .divisionByZero

end Workspace

open Workspace in
/-- The effect of the instruction at `pc`, after which the frame has already been moved past it. A
call has none here: what it does goes beyond the active frame. -/
def Instruction.effect (pc : Nat) : Instruction → Effect Unit
  | nop | call _ => pure ()
  | enter .block type => onFrame fun f => f.enter type (f.function.afterEnd pc)
  | enter .loop type => onFrame fun f => f.enter type pc
  | enter .cond type => do
    if ← popCondition then onFrame fun f => f.enter type (f.function.afterEnd pc)
    else onFrame fun f => f.enterElse pc type
  | otherwise => onFrame Frame.exit
  | close => onFrame fun f => f.leave.2
  | br label => tryFrame (·.branch label)
  | brIf label => do
    if ← popCondition then tryFrame (·.branch label)
  | drop => do
    let _ ← pop
  | localGet index => do
    push (← ask (·.getLocal index))
  | localSet index => do
    let _ ← ask (·.getLocal index)
    let v ← pop
    tryFrame (·.setLocal index v)
  | localTee index => do
    let _ ← ask (·.getLocal index)
    let v ← ask Frame.peek
    tryFrame (·.setLocal index v)
  | globalGet index => do
    push (← global index)
  | globalSet index => do
    let _ ← global index
    setGlobal index (← pop)
  | const v => push v
  | binary op => Workspace.binary op

end ScopeMachine
