import ScopeMachine.Proofs.Run

/-! # Nested calls as runs of their own

What a call does does not depend on the frames underneath. `Machine.hosting` puts the frames of one
machine on top of a caller that waits for them, and hands its results to that caller once it is idle.
A step of the machine that is hosted is a step of the host (`step_hosting`), so the host follows a
run of its guest to its end, whatever that is.
-/

namespace ScopeMachine

/-- A frame behind the call that it has made, with what is left on its stack. -/
def Frame.awaiting (s : OperandStack) (f : Frame) : Frame := (f.goto (f.pc + 1)).withStack s

@[simp] theorem Frame.stack_awaiting (s : OperandStack) (f : Frame) : (f.awaiting s).stack = s :=
  stack_withStack s _

theorem Frame.extend_awaiting (s : OperandStack) (values : List Value) (f : Frame) :
    (f.awaiting s).extend values = f.awaiting (s.extend values) := by
  rw [extend, stack_awaiting, awaiting, withStack_withStack, ← awaiting]

/-- A function starts with its arguments in order, followed by zeros. -/
theorem Frame.locals_entering (f : Function) (args : List Value) :
    (entering f args).locals = args ++ List.replicate f.locals.length 0 := by
  have zeros : f.locals.map ValueType.zero = List.replicate f.locals.length 0 := by
    apply List.map_eq_replicate_iff.mpr
    intro type _
    cases type
    rfl
  exact congrArg (args ++ ·) zeros

namespace Machine

/-- The machine in which the frames of another one run above a caller that waits for its results. The
caller has been given them once there is no such frame. -/
def hosting (m : Machine) (caller : Frame) (lower : List Frame) (guest : Machine) : Machine :=
  { m with
    globals := guest.globals
    frames := match guest.frames with
      | [] => caller.extend guest.results :: lower
      | active :: callers => active :: (callers ++ caller :: lower) }

/-- The guest knows the functions of the host and may open as many frames as the host has room for. -/
structure Fits (m : Machine) (lower : List Frame) (guest : Machine) : Prop where
  functions : guest.functions = m.functions
  maxDepth : guest.maxDepth + (lower.length + 1) = m.maxDepth

theorem Fits.sameSetup {m guest guest' : Machine} {lower : List Frame} (fits : m.Fits lower guest)
    (same : guest.SameSetup guest') : m.Fits lower guest' :=
  ⟨same.functions.trans fits.functions, same.maxDepth ▸ fits.maxDepth⟩

variable {m guest guest' : Machine} {caller active : Frame} {lower callers : List Frame}

theorem hosting_of_idle (idle : guest.frames = []) : m.hosting caller lower guest =
    { m with globals := guest.globals, frames := caller.extend guest.results :: lower } := by
  unfold hosting
  rw [idle]

theorem hosting_of_frames (frames : guest.frames = active :: callers) : m.hosting caller lower guest =
    { m with globals := guest.globals, frames := active :: (callers ++ caller :: lower) } := by
  unfold hosting
  rw [frames]

/-- The frame that a guest retires hands its results to the next frame of the host. -/
theorem retire_hosting (busy : guest.frames ≠ []) :
    (m.hosting caller lower guest).retire = m.hosting caller lower guest.retire := by
  cases frames : guest.frames with
  | nil => exact (busy frames).elim
  | cons active callers =>
    rw [hosting_of_frames frames]
    cases callers with
    | nil =>
      have retired : guest.retire = { guest with frames := [], results := active.results } := by
        rw [retire, frames]
      rw [retired]
      rfl
    | cons next callers =>
      have retired : guest.retire = { guest with frames := next.extend active.results :: callers } := by
        rw [retire, frames]
      rw [retired]
      rfl

theorem retireFinished_hosting (busy : guest.frames ≠ []) :
    (m.hosting caller lower guest).retireFinished = m.hosting caller lower guest.retireFinished := by
  cases frames : guest.frames with
  | nil => exact (busy frames).elim
  | cons active callers =>
    have host : (m.hosting caller lower guest).retireFinished =
        if active.finished then (m.hosting caller lower guest).retire else m.hosting caller lower guest := by
      rw [retireFinished, hosting_of_frames frames]
    have own : guest.retireFinished = if active.finished then guest.retire else guest := by
      rw [retireFinished, frames]
    rw [host, own, retire_hosting busy]
    split <;> rfl

/-- A call that a guest makes finds the same functions and as much room in the host. -/
theorem call_hosting (fits : m.Fits lower guest) (frames : guest.frames = active :: callers) (index : UInt32) :
    call index (m.hosting caller lower guest) = match call index guest with
      | .ok _ next => .ok () (m.hosting caller lower next)
      | .error e next => .error e (m.hosting caller lower next) := by
  have host : (m.hosting caller lower guest).frames = active :: (callers ++ caller :: lower) := by
    rw [hosting_of_frames frames]
  have known : (m.hosting caller lower guest).function index = guest.function index := by
    rw [hosting, function, function, fits.functions]
  have full : (m.hosting caller lower guest).maxDepth ≤ (m.hosting caller lower guest).frames.length ↔
      guest.maxDepth ≤ guest.frames.length := by
    rw [hosting_of_frames frames, frames]
    simp only [List.length_cons, List.length_append]
    have := fits.maxDepth
    omega
  rw [call_of_frames host, call_of_frames frames, known]
  cases guest.function index with
  | error e => rfl
  | ok f =>
    simp only [full]
    split
    · rfl
    cases active.popN f.params.length with
    | error e => rfl
    | ok popped =>
      dsimp only
      cases (Frame.ofFunction f).bindArgs popped.1 <;> rfl

/-- A step of the guest is a step of the host. -/
theorem step_hosting (caller : Frame) (fits : m.Fits lower guest) (busy : guest.frames ≠ []) :
    step (m.hosting caller lower guest) = match step guest with
      | .ok _ next => .ok () (m.hosting caller lower next)
      | .error e next => .error e (m.hosting caller lower next) := by
  cases frames : guest.frames with
  | nil => exact (busy frames).elim
  | cons active callers =>
    have host : (m.hosting caller lower guest).frames = active :: (callers ++ caller :: lower) := by
      rw [hosting_of_frames frames]
    cases next : active.instruction? with
    | none => rw [step_of_done host next, step_of_done frames next, retire_hosting busy]
    | some i =>
      by_cases isCall : ∃ index, i = .call index
      · obtain ⟨index, rfl⟩ := isCall
        have passed : { m.hosting caller lower guest with
            frames := active.goto (active.pc + 1) :: (callers ++ caller :: lower) } =
            m.hosting caller lower { guest with frames := active.goto (active.pc + 1) :: callers } := rfl
        have fits : m.Fits lower { guest with frames := active.goto (active.pc + 1) :: callers } :=
          ⟨fits.functions, fits.maxDepth⟩
        rw [step_of_call host next, step_of_call frames next, passed, call_hosting fits rfl]
        cases called : call index { guest with frames := active.goto (active.pc + 1) :: callers } with
        | error e next => rfl
        | ok _ next =>
          dsimp only
          rw [retireFinished_hosting (call_eq_ok_iff.mp called).busy]
      · have notCall : ∀ index, i ≠ .call index := fun index same => isCall ⟨index, same⟩
        rw [step_of_effect host next notCall, step_of_effect frames next notCall]
        have globals : (m.hosting caller lower guest).globals = guest.globals := rfl
        rw [globals]
        cases i.effect active.pc { frame := active.goto (active.pc + 1), globals := guest.globals } with
        | error e w => rfl
        | ok _ w =>
          have acted : { guest with frames := w.frame :: callers, globals := w.globals }.frames ≠ [] :=
            List.cons_ne_nil _ _
          exact congrArg (EStateM.Result.ok ()) (retireFinished_hosting acted)

theorem busy_hosting : (m.hosting caller lower guest).frames ≠ [] := by
  unfold hosting
  cases guest.frames <;> exact List.cons_ne_nil _ _

theorem Steps.hosting {n : Nat} (steps : Steps n guest guest') (fits : m.Fits lower guest) :
    Steps n (m.hosting caller lower guest) (m.hosting caller lower guest') := by
  induction steps with
  | refl => exact .refl _
  | cons busy head _ ih =>
    have followed := step_hosting caller fits busy
    rw [head] at followed
    exact .cons busy_hosting followed (ih (fits.sameSetup (.advances (step_eq_ok_iff.mp head))))

theorem Traps.hosting {n : Nat} {e : Error} (traps : Traps n guest e guest') (fits : m.Fits lower guest) :
    Traps n (m.hosting caller lower guest) e (m.hosting caller lower guest') := by
  obtain ⟨last, steps, failed⟩ := traps
  have followed := step_hosting caller (fits.sameSetup steps.sameSetup) (busy_of_step_error failed)
  rw [failed] at followed
  exact ⟨_, steps.hosting fits, followed⟩

theorem hosting_of_busy (busy : guest.frames ≠ []) : m.hosting caller lower guest =
    { m with globals := guest.globals, frames := guest.frames ++ caller :: lower } := by
  cases frames : guest.frames with
  | nil => exact (busy frames).elim
  | cons active callers => exact hosting_of_frames frames

/-- A guest that is idle has left its results to the caller behind the call. -/
theorem hosting_awaiting (idle : guest.frames = []) (s : OperandStack) :
    m.hosting (caller.awaiting s) lower guest =
      { m with globals := guest.globals, frames := caller.awaiting (s.extend guest.results) :: lower } := by
  rw [hosting_of_idle idle, Frame.extend_awaiting]

theorem RunsForever.hosting (endless : RunsForever guest) (fits : m.Fits lower guest) (n : Nat) :
    ∃ m', Steps n (m.hosting caller lower guest) m' ∧ lower.length + 1 < m'.frames.length := by
  obtain ⟨guest', steps, busy⟩ := endless n
  refine ⟨_, steps.hosting fits, ?_⟩
  have above := List.length_pos_iff.mpr busy
  rw [hosting_of_busy busy]
  simp only [List.length_append, List.length_cons]
  omega

/-- A step that calls a function opens its frame above the caller, or, if the function has no
instructions, is already back in the caller. -/
theorem step_calls {index : UInt32} {f : Function} {s : OperandStack} {args : List Value}
    (frames : m.frames = caller :: lower) (next : caller.instruction? = some (.call index))
    (known : m.functions[index.toNat]? = some f) (room : m.frames.length < m.maxDepth)
    (count : args.length = f.params.length) (operands : caller.stack = s.extend args) :
    step m = .ok () (retireFinished { m with frames := .entering f args :: caller.awaiting s :: lower }) := by
  have opened : Opens index { m with frames := caller.goto (caller.pc + 1) :: lower }
      { m with frames := .entering f args :: caller.awaiting s :: lower } := by
    refine .nested rfl known ?_ count ?_
    · rwa [frames] at room
    · exact congrArg OperandStack.topFirst operands
  rw [step_of_call frames next, call_eq_ok_iff.mpr opened]

/-- A function without instructions finishes a run of its own in one step. -/
theorem finishes_of_empty {f : Function} {args : List Value} (empty : f.size = 0)
    (frames : guest.frames = [.entering f args]) : Finishes 1 guest guest.retire := by
  have busy : guest.frames ≠ [] := by
    rw [frames]
    exact List.cons_ne_nil _ _
  have done : (Frame.entering f args).instruction? = none := Array.getElem?_eq_none (Nat.le_of_eq empty)
  refine ⟨.single busy (step_of_done frames done), ?_⟩
  rw [retire, frames]

theorem retireFinished_of_nonempty {f : Function} {args : List Value} (nonempty : f.size ≠ 0)
    (frames : guest.frames = .entering f args :: callers) : guest.retireFinished = guest :=
  retireFinished_of_not_end frames (Ne.symm nonempty)

theorem retireFinished_of_empty {f : Function} {args : List Value} (empty : f.size = 0)
    (frames : guest.frames = .entering f args :: callers) : guest.retireFinished = guest.retire :=
  retireFinished_of_end frames empty.symm

/-- A call follows the run that another machine with the same functions and globals, and as much room
for frames as is left above the caller, makes of the same function and arguments. It takes the same
steps, fails where that run fails, and goes on as long as that run does; once that run is finished,
the caller is behind the call and has the results on its stack, and nothing else but the globals has
changed. A function without instructions has returned with the call itself. -/
theorem call_follows_run (m own : Machine) {caller : Frame} {lower : List Frame} {index : UInt32}
    {f : Function} {s : OperandStack} {args : List Value} (frames : m.frames = caller :: lower)
    (next : caller.instruction? = some (.call index)) (known : m.functions[index.toNat]? = some f)
    (room : m.frames.length < m.maxDepth) (count : args.length = f.params.length)
    (operands : caller.stack = s.extend args) (idle : own.frames = [])
    (functions : own.functions = m.functions) (globals : own.globals = m.globals)
    (maxDepth : own.maxDepth = m.maxDepth - m.frames.length) :
    ∃ called guest, step m = .ok () called ∧ start index args own = .ok () guest ∧
      (f.size ≠ 0 → ∃ callee, called = { m with frames := callee :: caller.awaiting s :: lower } ∧
        callee.function = f ∧ callee.pc = 0 ∧ callee.locals = args ++ List.replicate f.locals.length 0) ∧
      (∀ k guest', f.size ≠ 0 → Steps k guest guest' → guest'.frames ≠ [] → Steps k called
        { m with globals := guest'.globals, frames := guest'.frames ++ caller.awaiting s :: lower }) ∧
      (∀ k guest', Finishes k guest guest' → Steps (if f.size = 0 then 0 else k) called
        { m with globals := guest'.globals, frames := caller.awaiting (s.extend guest'.results) :: lower }) ∧
      (∀ k e guest', Traps k guest e guest' → Traps k called e
        { m with globals := guest'.globals, frames := guest'.frames ++ caller.awaiting s :: lower }) ∧
      (RunsForever guest → ∀ n, ∃ m', Steps n called m' ∧ m.frames.length < m'.frames.length) := by
  have started : start index args own =
      .ok () { own with frames := [.entering f args], results := [] } :=
    start_eq_ok_iff.mpr ⟨idle, f, functions ▸ known, count, rfl⟩
  have called := step_calls frames next known room count operands
  have height : m.frames.length = lower.length + 1 := by rw [frames, List.length_cons]
  generalize same : { own with frames := [Frame.entering f args], results := [] } = guest at started
  have opened : guest.frames = [.entering f args] := by rw [← same]
  have host : { m with frames := .entering f args :: caller.awaiting s :: lower } =
      m.hosting (caller.awaiting s) lower guest := by
    rw [hosting_of_frames opened, ← same, globals]
    rfl
  have fits : m.Fits lower guest := by
    have remaining : own.maxDepth + (lower.length + 1) = m.maxDepth := by omega
    rw [← same]
    exact ⟨functions, remaining⟩
  rw [host] at called
  refine ⟨_, guest, called, started, ?_⟩
  by_cases empty : f.size = 0
  · have finishes := finishes_of_empty empty opened
    have busy : guest.frames ≠ [] := by
      rw [opened]
      exact List.cons_ne_nil _ _
    have atOnce : (m.hosting (caller.awaiting s) lower guest).retireFinished =
        m.hosting (caller.awaiting s) lower guest.retire := by
      rw [retireFinished_hosting busy, retireFinished_of_empty empty opened]
    refine ⟨?_, ?_, ?_, ?_, ?_⟩
    · intro nonempty
      exact (nonempty empty).elim
    · intro k guest' nonempty
      exact (nonempty empty).elim
    · intro k guest' ended
      obtain ⟨-, rfl⟩ := finishes.deterministic ended
      rw [if_pos empty, atOnce, hosting_awaiting finishes.2]
      exact .refl _
    · intro k e guest' traps
      exact (traps.not_finishes finishes).elim
    · intro endless
      exact (endless.not_finishes finishes).elim
  · have unfinished : (m.hosting (caller.awaiting s) lower guest).retireFinished =
        m.hosting (caller.awaiting s) lower guest := by
      rw [← host]
      exact retireFinished_of_nonempty empty rfl
    rw [unfinished]
    refine ⟨?_, ?_, ?_, ?_, ?_⟩
    · intro nonempty
      exact ⟨.entering f args, host.symm, rfl, rfl, Frame.locals_entering f args⟩
    · intro k guest' nonempty steps busy
      exact hosting_of_busy busy ▸ steps.hosting fits
    · intro k guest' finishes
      rw [if_neg empty]
      exact hosting_awaiting finishes.2 s ▸ finishes.1.hosting fits
    · intro k e guest' traps
      exact hosting_of_busy traps.busy ▸ traps.hosting fits
    · intro endless n
      rw [height]
      exact endless.hosting fits n

/-- A machine that is about to call a function which squares the operand on top. -/
def aboutToSquare : Machine :=
  let main : Function := { body := #[.const 7, .const 3, .call 1] }
  let square : Function :=
    { params := [.i32], results := [.i32], body := #[.localGet 0, .localGet 0, .binary .mul] }
  { functions := [main, square]
    frames := [{ function := main, base := .ofList [7, 3], locals := [], pc := 2 }] }

theorem call_follows_run_of_square :
    ∃ caller called guest guest', aboutToSquare.frames = [caller] ∧ step aboutToSquare = .ok () called ∧
      start 1 [3] { functions := aboutToSquare.functions, maxDepth := 999 } = .ok () guest ∧
      Finishes 3 guest guest' ∧ guest'.results = [9] ∧
      Steps 3 called { aboutToSquare with frames := [caller.awaiting (.ofList [7, 9])] } := by
  obtain ⟨called, guest, head, started, -, -, finished, -⟩ :=
    call_follows_run aboutToSquare { functions := aboutToSquare.functions, maxDepth := 999 }
      rfl rfl rfl (by decide) rfl (show _ = (OperandStack.ofList [7]).extend [3] from rfl) rfl rfl rfl rfl
  have run : ∃ guest', Finishes 3 guest guest' ∧ guest'.globals = [] ∧ guest'.results = [9] := by
    have opened : EStateM.Result.ok () _ = EStateM.Result.ok () guest := started
    cases opened
    exact ⟨_, ⟨.cons nofun rfl (.cons nofun rfl (.cons nofun rfl (.refl _))), rfl⟩, rfl, rfl⟩
  obtain ⟨guest', finishes, globals, results⟩ := run
  have steps := finished 3 guest' finishes
  rw [globals, results] at steps
  exact ⟨_, called, guest, guest', rfl, head, started, finishes, results, steps⟩

end Machine

end ScopeMachine
