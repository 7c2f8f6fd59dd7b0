import ScopeMachine.Proofs.Recast

/-! # Machines without types

A machine stores the types of its scopes and the result types of its functions, but nothing that it does
depends on them. `Machine.untyped` erases them everywhere, in the functions and in the frames of the calls under
way. Erasing them before an operation comes to the same as erasing them after it, whether the operation succeeds
or fails: first for the changes of a frame, then for each instruction (`Instruction.effect_recast`), for a step
(`Machine.step_untyped`) and for runs.
-/

namespace ScopeMachine

/-- The same instruction without the type of the scope that it opens. -/
def Instruction.untyped : Instruction → Instruction := retyped fun _ => .empty

/-- The same function without its result types and the types of its scopes. -/
def Function.untyped (f : Function) : Function :=
  { params := f.params, locals := f.locals, body := f.body.map Instruction.untyped }

/-- The same frame without the types of its function and of its open scopes. -/
def Frame.untyped : Frame → Frame := recast Function.untyped fun _ => .empty

/-- The same machine without the types in its functions and frames. -/
def Machine.untyped (m : Machine) : Machine :=
  { m with functions := m.functions.map Function.untyped, frames := m.frames.map Frame.untyped }

namespace Function

@[simp] theorem params_untyped (f : Function) : f.untyped.params = f.params := rfl

theorem size_untyped (f : Function) : f.untyped.size = f.size := Array.size_map ..

theorem getElem?_body_untyped (f : Function) (pc : Nat) :
    f.untyped.body[pc]? = f.body[pc]?.map Instruction.untyped := Array.getElem?_map ..

/-- Types take no part in where scopes begin and end. -/
theorem sameScopes_untyped (f : Function) : f.SameScopes f.untyped := by
  have bodies : List.Forall₂ (fun i j => j = i.untyped) f.body.toList f.untyped.body.toList := by
    rw [untyped, Array.toList_map, List.forall₂_map_right_iff]
    exact List.forall₂_same.mpr fun _ _ => rfl
  apply sameScopes_of_bodies bodies
  rintro i _ rfl size pc o
  cases i <;> rfl

end Function

namespace Frame

variable (f : Frame)

theorem stack_untyped : f.untyped.stack = f.stack := stack_recast ..

theorem withStack_untyped (s : OperandStack) : f.untyped.withStack s = (f.withStack s).untyped :=
  withStack_recast ..

theorem extend_untyped (values : List Value) : f.untyped.extend values = (f.extend values).untyped := by
  rw [extend, stack_untyped, withStack_untyped]
  rfl

theorem results_untyped : f.untyped.results = f.results := congrArg OperandStack.toList f.stack_untyped

theorem instruction?_untyped : f.untyped.instruction? = f.instruction?.map Instruction.untyped :=
  f.function.getElem?_body_untyped f.pc

theorem finished_untyped : f.untyped.finished = f.finished := by
  rw [finished, finished, ← f.function.size_untyped]
  rfl

theorem popN_untyped (n : Nat) :
    f.untyped.popN n = (f.popN n).map fun (args, below) => (args, below.untyped) := by
  rw [popN, popN, stack_untyped]
  cases f.stack.popN n with
  | error e => rfl
  | ok taken => exact congrArg (fun below => Except.ok (taken.1, below)) (f.withStack_untyped taken.2)

theorem ofFunction_untyped (f : Function) : ofFunction f.untyped = (ofFunction f).untyped := rfl

theorem bindArgs_untyped (args : List Value) : f.untyped.bindArgs args = (f.bindArgs args).map untyped := by
  have params : f.untyped.function.params = f.function.params := f.function.params_untyped
  unfold bindArgs
  rw [params]
  split <;> rfl

end Frame

namespace Machine

variable (m : Machine)

theorem retire_untyped : m.untyped.retire = m.retire.untyped := by
  obtain ⟨functions, globals, exports, frames, results, maxDepth⟩ := m
  match frames with
  | [] => rfl
  | [f] => simp only [retire, untyped, List.map_cons, List.map_nil, f.results_untyped]
  | f :: caller :: callers =>
    simp only [retire, untyped, List.map_cons, f.results_untyped, caller.extend_untyped]

theorem frames_untyped : m.untyped.frames = m.frames.map Frame.untyped := rfl

theorem retireFinished_untyped : m.untyped.retireFinished = m.retireFinished.untyped := by
  unfold retireFinished
  rw [frames_untyped, retire_untyped]
  cases m.frames with
  | nil => rfl
  | cons f callers =>
    simp only [List.map_cons, f.finished_untyped]
    split <;> rfl

theorem function_untyped (index : UInt32) : m.untyped.function index = (m.function index).map Function.untyped := by
  unfold function
  rw [untyped, List.getElem?_map]
  cases m.functions[index.toNat]? <;> rfl

theorem call_untyped (index : UInt32) : call index m.untyped = onState untyped (call index m) := by
  have maxDepth : m.untyped.maxDepth = m.maxDepth := rfl
  unfold call
  rw [function_untyped, frames_untyped, maxDepth, List.length_map]
  cases m.function index with
  | error e => rfl
  | ok f =>
    dsimp only [Except.map]
    split
    · rfl
    · cases m.frames with
      | nil =>
        simp only [List.map_nil, f.params_untyped]
        split <;> rfl
      | cons caller callers =>
        -- How many arguments there are is asked of the parameters, which are kept.
        simp only [List.map_cons, f.params_untyped, Frame.ofFunction_untyped, Frame.popN_untyped,
          Frame.bindArgs_untyped]
        cases caller.popN f.params.length with
        | error e => rfl
        | ok taken =>
          obtain ⟨args, caller⟩ := taken
          dsimp only [Except.map]
          cases (Frame.ofFunction f).bindArgs args <;> rfl

theorem perform_untyped (pc : Nat) (i : Instruction) :
    perform (i.untyped.effect pc) m.untyped = onState untyped (perform (i.effect pc) m) := by
  obtain ⟨functions, globals, exports, frames, results, maxDepth⟩ := m
  cases frames with
  | nil => rfl
  | cons f callers =>
    have acts : i.untyped.effect pc ⟨f.untyped, globals⟩ = _ :=
      i.effect_recast (w := ⟨f, globals⟩) pc f.function.sameScopes_untyped
    simp only [perform, untyped, List.map_cons, acts]
    cases i.effect pc ⟨f, globals⟩ <;> rfl

theorem execute_untyped (pc : Nat) (i : Instruction) :
    execute pc i.untyped m.untyped = onState untyped (execute pc i m) := by
  have acts := m.perform_untyped pc i
  cases i with
  | call index => exact m.call_untyped index
  | _ => exact acts

/-- A step does the same with and without types. -/
theorem step_untyped : step m.untyped = onState untyped (step m) := by
  have frames' := m.frames_untyped
  cases frames : m.frames with
  | nil =>
    rw [frames, List.map_nil] at frames'
    rw [step_of_idle frames, step_of_idle frames']
    rfl
  | cons f callers =>
    rw [frames, List.map_cons] at frames'
    cases next : f.instruction? with
    | none =>
      have next' : f.untyped.instruction? = none := by rw [f.instruction?_untyped, next]; rfl
      rw [step_of_done frames next, step_of_done frames' next', m.retire_untyped]
      rfl
    | some i =>
      have next' : f.untyped.instruction? = some i.untyped := by rw [f.instruction?_untyped, next]; rfl
      have acts : execute f.pc i.untyped { m.untyped with frames := f.untyped.goto (f.pc + 1) :: _ } = _ :=
        execute_untyped { m with frames := f.goto (f.pc + 1) :: callers } f.pc i
      have pc : f.untyped.pc = f.pc := rfl
      simp only [step, frames, frames', next, next', pc, acts]
      cases execute f.pc i { m with frames := f.goto (f.pc + 1) :: callers } with
      | error e m' => rfl
      | ok _ m' => exact congrArg _ m'.retireFinished_untyped

theorem idle_untyped : m.untyped.idle = m.idle := List.isEmpty_map

theorem start_untyped (index : UInt32) (args : List Value) :
    start index args m.untyped = onState untyped (start index args m) := by
  unfold start
  rw [idle_untyped, function_untyped]
  split
  · cases m.function index with
    | error e => rfl
    | ok f =>
      simp only [Except.map, bind, Except.bind, Frame.ofFunction_untyped, Frame.bindArgs_untyped]
      cases (Frame.ofFunction f).bindArgs args <;> rfl
  · rfl

theorem runSteps_untyped (limit : Nat) : runSteps limit m.untyped = onState untyped (runSteps limit m) := by
  induction limit generalizing m with
  | zero => exact congrArg (EStateM.Result.ok · m.untyped) m.idle_untyped
  | succ limit ih =>
    unfold runSteps
    rw [idle_untyped, step_untyped]
    split
    · rfl
    · cases step m with
      | ok _ m' => exact ih m'
      | error e m' => rfl

theorem run?_untyped (fuel : Nat) : run? fuel m.untyped = (run? fuel m).map (onState untyped) := by
  induction fuel generalizing m with
  | zero =>
    unfold run?
    rw [idle_untyped]
    split <;> rfl
  | succ fuel ih =>
    unfold run?
    rw [idle_untyped, step_untyped]
    split
    · rfl
    · cases step m with
      | ok _ m' => exact ih m'
      | error e m' => rfl

theorem invoke?_untyped (fuel : Nat) (index : UInt32) (args : List Value) :
    invoke? fuel index args m.untyped = (invoke? fuel index args m).map (onState untyped) := by
  unfold invoke?
  rw [start_untyped]
  cases start index args m with
  | error e m' => rfl
  | ok _ m' =>
    dsimp only [onState]
    rw [run?_untyped]
    cases run? fuel m' with
    | none => rfl
    | some result => cases result <;> rfl

end Machine

end ScopeMachine
