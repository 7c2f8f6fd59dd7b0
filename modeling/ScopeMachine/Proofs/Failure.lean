import ScopeMachine.Proofs.Shape

/-! # What a failure leaves

Nothing is undone when an operation fails. A step that fails leaves the machine as it was, but its active frame has
moved past the instruction and has lost the operands that the instruction had taken by then
(`Machine.left_of_step_error`); how many these are depends on the instruction and on the cause
(`Instruction.lost`). A call that is refused leaves the machine as it was too, unless there is no caller to take
arguments from, in which case the results of the last run are gone (`Machine.left_of_refused_call`).
-/

namespace ScopeMachine

namespace Frame

theorem shapes_scopes_withStack (s : OperandStack) (f : Frame) :
    (f.withStack s).scopes.map Scope.shape = f.scopes.map Scope.shape := by
  obtain ⟨function, base, inner, locals, pc⟩ := f
  cases inner <;> rfl

theorem tail_scopes_withStack (s : OperandStack) (f : Frame) : (f.withStack s).scopes.tail = f.scopes.tail := by
  obtain ⟨function, base, inner, locals, pc⟩ := f
  cases inner <;> rfl

end Frame

namespace Instruction

/-- How many operands an instruction that fails has taken from a stack of the given size. -/
def lost (i : Instruction) (e : Error) (held : Nat) : Nat :=
  match i, e with
  | _, .divisionByZero => 2
  | brIf _, .unknownLabel _ => 1
  | binary _, .stackUnderflow => if held = 1 then 1 else 0
  | _, _ => 0

/-- An instruction that fails leaves its frame with the operands that it has not taken, and changes nothing else. -/
theorem Fails.taken {i : Instruction} {w w' : Workspace} {e : Error} (fails : i.Fails w e w') :
    ∃ taken below, w.frame.stack.topFirst = taken ++ below ∧ taken.length = i.lost e w.frame.stack.size ∧
      w' = { w with frame := w.frame.withStack ⟨below⟩ } := by
  have same : w = { w with frame := w.frame.withStack ⟨w.frame.stack.topFirst⟩ } :=
    congrArg (fun frame => { w with frame }) (Frame.withStack_stack w.frame).symm
  cases fails with
  | unknownLocal names => exact ⟨[], _, rfl, by cases i <;> rfl, same⟩
  | unknownGlobal names => exact ⟨[], _, rfl, by cases i <;> rfl, same⟩
  | noOperand needs knownLocal knownGlobal empty =>
    have held : w.frame.stack.size = 0 := congrArg List.length empty
    exact ⟨[], _, rfl, by rw [held]; cases i <;> rfl, same⟩
  | @oneOperand op _ v top =>
    have held : w.frame.stack.size = 1 := congrArg List.length top
    exact ⟨[v], [], top, by rw [held]; rfl, rfl⟩
  | @divisionByZero _ dividend below top => exact ⟨[0, dividend], below, top, rfl, rfl⟩
  | br => exact ⟨[], _, rfl, rfl, same⟩
  | @brIf _ _ v below top => exact ⟨[v], below, top, rfl, rfl⟩

end Instruction

namespace Machine

variable {m m' : Machine} {e : Error} {index : UInt32}

/-- A step that fails moves the active frame past the instruction that fails and loses the operands that the
instruction has taken from the innermost scope: both of them if the divisor is zero, the condition if a branch that
depends on it names a scope that is not open, and the only one there is if an operator finds no other, but nothing in
any other case. Nothing else changes. -/
theorem left_of_step_error (failed : step m = .error e m') :
    ∃ f g callers i taken, m.frames = f :: callers ∧ f.instruction? = some i ∧
      m' = { m with frames := g :: callers } ∧ g.function = f.function ∧ g.locals = f.locals ∧
      g.pc = f.pc + 1 ∧ g.scopes.map Scope.shape = f.scopes.map Scope.shape ∧ g.scopes.tail = f.scopes.tail ∧
      f.stack.toList = g.stack.toList ++ taken ∧ taken.length = i.lost e f.stack.size := by
  cases step_eq_error_iff.mp failed with
  | @acts f callers i _ w frames next fails =>
    obtain ⟨taken, below, top, count, rfl⟩ := fails.taken
    refine ⟨f, (f.goto (f.pc + 1)).withStack ⟨below⟩, callers, i, taken.reverse, frames, next, rfl, ?_, ?_, ?_,
      ?_, ?_, ?_, ?_⟩
    · exact Frame.function_withStack _ _
    · exact Frame.locals_withStack _ _
    · exact Frame.pc_withStack _ _
    · exact Frame.shapes_scopes_withStack _ _
    · exact Frame.tail_scopes_withStack _ _
    · rw [Frame.stack_withStack]
      exact (congrArg List.reverse top).trans List.reverse_append
    · exact List.length_reverse.trans count
  | @calls _ f callers index _ frames next declines =>
    have nothing : (Instruction.call index).lost e f.stack.size = 0 := by
      cases declines <;> rfl
    obtain rfl := declines.eq_of_frames (List.cons_ne_nil _ _)
    exact ⟨f, f.goto (f.pc + 1), callers, _, [], frames, next, rfl, rfl, rfl, rfl, rfl, rfl,
      (List.append_nil _).symm, nothing.symm⟩

/-- A machine with a function that calls one which branches out of more scopes than it has open. -/
def branching : Machine :=
  { functions := [{ body := #[.const 2, .call 1, .drop] },
      { body := #[.const 4, .enter .block .empty, .const 5, .const 1, .brIf 3, .close] }]
    globals := [8] }

theorem left_of_step_error_branching :
    ∃ started m m' f g caller v, start 0 [] branching = .ok () started ∧ Steps 6 started m ∧
      step m = .error (.unknownLabel 3) m' ∧ m.frames = [f, caller] ∧ m' = { m with frames := [g, caller] } ∧
      f.pc = 4 ∧ g.pc = 5 ∧ f.depth = 2 ∧ g.scopes.tail = f.scopes.tail ∧ f.stack.toList = [5, 1] ∧
      g.stack.toList ++ [v] = [5, 1] := by
  have reached : ∃ started m m' f caller, start 0 [] branching = .ok () started ∧ Steps 6 started m ∧
      step m = .error (.unknownLabel 3) m' ∧ m.frames = [f, caller] ∧ f.instruction? = some (.brIf 3) ∧ f.pc = 4 ∧
      f.depth = 2 ∧ f.stack.toList = [5, 1] :=
    ⟨_, _, _, _, _, rfl, .cons nofun rfl (.cons nofun rfl (.cons nofun rfl (.cons nofun rfl (.cons nofun rfl
      (.cons nofun rfl (.refl _)))))), rfl, rfl, rfl, rfl, rfl, rfl⟩
  obtain ⟨started, m, m', f, caller, starts, steps, failed, frames, next, pc, depth, stack⟩ := reached
  obtain ⟨f', g, callers, i, taken, frames', next', left, -, -, moved, -, outer, operands, count⟩ :=
    left_of_step_error failed
  obtain ⟨rfl, rfl⟩ := List.cons.inj (frames.symm.trans frames')
  obtain rfl := Option.some.inj (next.symm.trans next')
  obtain ⟨v, rfl⟩ := List.length_eq_one_iff.mp count
  exact ⟨started, m, m', f, g, caller, v, starts, steps, failed, frames, left, pc, by rw [moved, pc], depth, outer,
    stack, operands.symm.trans stack⟩

/-- A call that is refused leaves the machine as it was if there is a caller, if the call is refused for another
cause than a want of operands, or if there are no results to lose. Without a caller, a call that wants for arguments
drops the results of the last run. -/
theorem left_of_refused_call (refused : call index m = .error e m') :
    m.Declines index e m' ∧ (m.frames ≠ [] ∨ e ≠ .stackUnderflow ∨ m.results = [] → m' = m) ∧
      (m.frames = [] → e = .stackUnderflow → m' = { m with results := [] }) := by
  have declines := call_eq_error_iff.mp refused
  refine ⟨declines, ?_, ?_⟩
  · intro kept
    cases declines with
    | unknownFunction | callDepthExhausted | fewArguments => rfl
    | noCaller idle known room wants =>
      rcases kept with busy | other | empty
      · exact (busy idle).elim
      · exact (other rfl).elim
      · rw [← empty]
  · intro idle underflow
    cases declines with
    | unknownFunction | callDepthExhausted => cases underflow
    | noCaller => rfl
    | fewArguments frames =>
      rw [idle] at frames
      cases frames

/-- A function that returns a value. -/
def seven : Function := { body := #[.const 7, .nop] }

/-- A function with two parameters. -/
def difference : Function :=
  { params := [.i32, .i32], body := #[.localGet 0, .localGet 1, .binary .sub] }

theorem left_of_refused_call_running :
    ∃ m f, History [.addFunction seven, .addFunction difference, .start 0 [], .step] empty m ∧ m.frames = [f] ∧
      f.stack.toList = [7] ∧ call 1 m = .error .stackUnderflow m := by
  have reached : ∃ m f m', History [.addFunction seven, .addFunction difference, .start 0 [], .step] empty m ∧
      m.frames = [f] ∧ f.stack.toList = [7] ∧ call 1 m = .error .stackUnderflow m' :=
    ⟨_, _, _, .cons 0 rfl (.cons 0 rfl (.cons 0 rfl (.cons 0 rfl (.nil _)))), rfl, rfl, rfl⟩
  obtain ⟨m, f, m', history, frames, stack, refused⟩ := reached
  obtain ⟨-, kept, -⟩ := left_of_refused_call refused
  obtain rfl := kept (.inl (by simp [frames]))
  exact ⟨m', f, history, frames, stack, refused⟩

/-- A call from outside that is refused for want of arguments drops the results of the run before it. -/
theorem results_lost_to_refused_call :
    ∃ m m', History [.addFunction seven, .addFunction difference, .start 0 [], .run] empty m ∧ m.results = [7] ∧
      call 1 m = .error .stackUnderflow m' ∧ m'.results = [] ∧ m' ≠ m :=
  ⟨_, _, .cons 0 rfl (.cons 0 rfl (.cons 0 rfl (.cons 2 rfl (.nil _)))), rfl, rfl, rfl, by decide⟩

end Machine

end ScopeMachine
