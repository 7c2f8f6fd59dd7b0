import ScopeMachine.Machine.Execution

/-! # Steps

A step executes one instruction of the active frame and, if that finishes a frame, hands its results
to the caller. Only one frame is retired in a step, so a caller whose last instruction was the call
takes another step, in which nothing is executed.
-/

namespace ScopeMachine.Machine

/-- Lets the active frame act; an idle machine has nothing to do. -/
def perform (effect : Workspace.Effect Unit) : Action Unit := fun m =>
  match m.frames with
  | [] => .ok () m
  | frame :: callers =>
    match effect { frame, globals := m.globals } with
    | .ok _ w => .ok () { m with frames := w.frame :: callers, globals := w.globals }
    | .error e w => .error e { m with frames := w.frame :: callers, globals := w.globals }

/-- Opens a frame for a function. Its arguments are taken from the active frame, so only a function
without parameters can be called when there is none; the results of the last run are dropped then.
-/
def call (index : UInt32) : Action Unit := fun m =>
  match m.function index with
  | .error e => .error e m
  | .ok f =>
    if m.maxDepth ≤ m.frames.length then .error .callDepthExhausted m
    else
      match m.frames with
      | [] =>
        if f.params.isEmpty then
          .ok () { m with frames := [.ofFunction f], results := [] }
        else .error .stackUnderflow { m with results := [] }
      | caller :: callers =>
        match caller.popN f.params.length with
        | .error e => .error e m
        | .ok (args, caller) =>
          match (Frame.ofFunction f).bindArgs args with
          | .error e => .error e { m with frames := caller :: callers }
          | .ok frame => .ok () { m with frames := frame :: caller :: callers }

/-- Closes the active frame. Its results go to the caller's innermost stack, or become the machine's
when there is no caller. -/
def retire (m : Machine) : Machine :=
  match m.frames with
  | [] => m
  | [frame] => { m with frames := [], results := frame.results }
  | frame :: caller :: callers => { m with frames := caller.extend frame.results :: callers }

/-- Closes the active frame if it is finished. -/
def retireFinished (m : Machine) : Machine :=
  match m.frames with
  | [] => m
  | frame :: _ => if frame.finished then m.retire else m

/-- Executes the instruction at `pc` of the active frame. -/
def execute (pc : Nat) : Instruction → Action Unit
  | .call index => call index
  | i => perform (i.effect pc)

/-- Executes one instruction, or retires a frame that has none left. -/
def step : Action Unit := fun m =>
  match m.frames with
  | [] => .ok () m
  | frame :: callers =>
    match frame.instruction? with
    | none => .ok () m.retire
    | some i =>
      match execute frame.pc i { m with frames := frame.goto (frame.pc + 1) :: callers } with
      | .ok _ m => .ok () m.retireFinished
      | .error e m => .error e m

end ScopeMachine.Machine
