import Mathlib.Algebra.Ring.Nat
import ScopeMachine.Proofs.Beneath
import ScopeMachine.Proofs.Soundness

/-! # How many operands there can be

An instruction leaves at most one operand more than it finds, and a call at most as many as the whole
frame of its callee holds. A frame therefore holds no more than its position allows at such a rate
(`Frame.Paced`). A jump back could break this, but only a loop is jumped back to, and the jump throws
away everything inside it: what is left has been there since the loop was entered, when the position
was the same. So each scope also remembers, by its target, what there may be around it, and a bound on
the length of bodies and on the number of frames bounds the operands of every frame, however long the
run is.
-/

namespace ScopeMachine

namespace Frame

/-- The number of operands of all open scopes. -/
def operandCount (f : Frame) : Nat := (f.scopes.map fun scope => scope.stack.size).sum

theorem operandCount_eq (f : Frame) :
    f.operandCount = (f.inner.map fun scope => scope.stack.size).sum + f.base.size := by
  rw [operandCount, scopes, List.map_append, List.sum_append]
  exact congrArg _ (Nat.add_zero _)

/-- The innermost stack is part of the whole. -/
theorem operandCount_withStack (s : OperandStack) (f : Frame) :
    (f.withStack s).operandCount + f.stack.size = f.operandCount + s.size := by
  obtain ⟨function, base, inner, locals, pc⟩ := f
  rw [operandCount_eq, operandCount_eq]
  cases inner with
  | nil =>
    simp only [withStack, stack, List.map_nil, List.sum_nil]
    omega
  | cons scope outer =>
    simp only [withStack, stack, List.map_cons, List.sum_cons]
    omega

theorem size_stack_le (f : Frame) : f.stack.size ≤ f.operandCount := by
  have whole := operandCount_withStack .empty f
  have none : OperandStack.empty.size = 0 := rfl
  omega

theorem operandCount_enter (type : BlockType) (target : Nat) (f : Frame) :
    (f.enter type target).operandCount = f.operandCount := by
  rw [operandCount_eq, operandCount_eq]
  simp [enter, OperandStack.size, OperandStack.empty]

theorem operandCount_unwind (n : Nat) (f : Frame) :
    (f.unwind n).operandCount = ((f.inner.drop (n + 1)).map fun scope => scope.stack.size).sum + f.base.size :=
  operandCount_eq _

theorem operandCount_unwind_le (n : Nat) (f : Frame) : (f.unwind n).operandCount ≤ f.operandCount := by
  have split := congrArg (fun scopes : List Scope => (scopes.map fun scope => scope.stack.size).sum)
    (List.take_append_drop (n + 1) f.inner)
  simp only [List.map_append, List.sum_append] at split
  rw [operandCount_unwind, operandCount_eq]
  omega

/-- The operands of a frame are no more than the given number of instructions leaves at the given rate,
and those around a scope no more than the instructions before the target of that scope do. -/
structure Paced (rate passed : Nat) (f : Frame) : Prop where
  total : f.operandCount ≤ passed * rate
  around : ∀ {n : Nat} {scope : Scope}, f.inner[n]? = some scope → (f.unwind n).operandCount ≤ scope.target * rate

namespace Paced

variable {rate passed later : Nat} {f : Frame}

theorem mono (paced : f.Paced rate passed) (le : passed ≤ later) : f.Paced rate later where
  total := Nat.le_trans paced.total (Nat.mul_le_mul_right rate le)
  around := paced.around

theorem goto (paced : f.Paced rate passed) (pc : Nat) : (f.goto pc).Paced rate passed := ⟨paced.total, paced.around⟩

/-- The operands of the innermost scope are around no scope. -/
theorem withStack (paced : f.Paced rate passed) (s : OperandStack)
    (total : (f.withStack s).operandCount ≤ later * rate) : (f.withStack s).Paced rate later where
  total := total
  around {n scope} found := by
    obtain ⟨function, base, inner, locals, pc⟩ := f
    cases inner with
    | nil => cases found
    | cons innermost outer =>
      cases n with
      | zero =>
        obtain rfl := Option.some.inj found
        have around := paced.around (n := 0) rfl
        exact around
      | succ n => exact paced.around (n := n + 1) found

/-- Operands are only taken. -/
theorem taking (paced : f.Paced rate passed) (taken : List Value) {below : List Value}
    (top : f.stack.topFirst = taken ++ below) :
    (f.withStack ⟨below⟩).Paced rate passed := by
  apply paced.withStack
  have whole := operandCount_withStack ⟨below⟩ f
  have fewer : (⟨below⟩ : OperandStack).size ≤ f.stack.size := by
    rw [OperandStack.size, OperandStack.size, top, List.length_append]
    exact Nat.le_add_left _ _
  have total := paced.total
  omega

theorem enter (paced : f.Paced rate passed) (type : BlockType) {target : Nat} (le : passed ≤ target) :
    (f.enter type target).Paced rate passed where
  total := operandCount_enter type target f ▸ paced.total
  around {n scope} found := by
    cases n with
    | zero =>
      obtain rfl := Option.some.inj found
      have same : ((f.enter type target).unwind 0).operandCount = f.operandCount := by
        rw [operandCount_unwind, operandCount_eq]
        rfl
      exact same ▸ Nat.le_trans paced.total (Nat.mul_le_mul_right rate le)
    | succ n => exact paced.around (n := n) found

/-- What is around a scope that is left was there when the instructions before its target had been
executed, and so they are all that matters from there on. -/
theorem unwind (paced : f.Paced rate passed) (within : passed ≤ f.function.size) (n : Nat) :
    (f.unwind n).Paced rate (f.unwind n).pc where
  total := by
    rw [Frame.unwind]
    cases found : f.inner[n]? with
    | some scope => exact paced.around found
    | none =>
      have less := Nat.le_trans (operandCount_unwind_le n f) paced.total
      exact Nat.le_trans less (Nat.mul_le_mul_right rate within)
  around {k scope} found := by
    have found : (f.inner.drop (n + 1))[k]? = some scope := found
    rw [List.getElem?_drop] at found
    have around := paced.around found
    rw [operandCount_unwind] at around ⊢
    rw [Frame.unwind, List.drop_drop]
    exact around

theorem leave (paced : f.Paced rate passed) : f.leave.2.Paced rate passed := by
  obtain ⟨function, base, inner, locals, pc⟩ := f
  cases inner with
  | nil => exact ⟨paced.total, paced.around⟩
  | cons scope outer =>
    refine ⟨Nat.le_trans (operandCount_unwind_le 0 ⟨function, base, scope :: outer, locals, pc⟩) paced.total, ?_⟩
    intro n scope found
    exact paced.around (n := n + 1) found

theorem entering (function : Function) (args : List Value) : (entering function args).Paced rate 0 where
  total := Nat.zero_le _
  around found := nomatch found

/-- A callee gives its caller as many operands as one instruction may leave. -/
theorem extend (paced : f.Paced rate passed) {values : List Value} (few : values.length ≤ rate) :
    (f.extend values).Paced rate (passed + 1) := by
  apply paced.withStack
  have whole := operandCount_withStack (f.stack.extend values) f
  have added : (f.stack.extend values).size = values.length + f.stack.size := by
    simp [OperandStack.extend, OperandStack.size]
  have total := paced.total
  rw [Nat.succ_mul]
  omega

end Paced

end Frame

namespace Instruction

/-- A plain instruction leaves at most one operand more than it finds. -/
theorem size_compute_le {i : Instruction} {o o' : Operands} (computed : i.compute o = .ok () o') :
    o'.stack.size ≤ o.stack.size + 1 := by
  cases i <;> simp only [compute] at computed
  all_goals repeat' split at computed
  all_goals cases computed
  all_goals simp_all [OperandStack.push, OperandStack.size]
  all_goals omega

/-- At a rate of one operand or more, an instruction keeps to the pace. -/
theorem Moves.paced {f : Frame} {globals : List Value} {i : Instruction} {w : Workspace} {rate : Nat}
    (positive : 1 ≤ rate) (next : f.instruction? = some i)
    (moves : i.Moves f.pc { frame := f.goto (f.pc + 1), globals } w) (paced : f.Paced rate f.pc) :
    w.frame.Paced rate w.frame.pc := by
  have bound : f.pc < f.function.size := (Array.getElem?_eq_some_iff.mp next).1
  have within : f.pc ≤ f.function.size := Nat.le_of_lt bound
  have paced := paced.goto (f.pc + 1)
  have after {kind : ScopeKind} {type : BlockType} (next : f.instruction? = some (.enter kind type)) :
      f.pc ≤ f.function.afterEnd f.pc := Nat.le_of_lt (Function.lt_afterEnd next)
  cases moves with
  | @plain _ _ o isPlain computed =>
    have written : Frame.Paced rate f.pc { f.goto (f.pc + 1) with locals := o.locals } := ⟨paced.total, paced.around⟩
    have few : o.stack.size ≤ f.stack.size + 1 := size_compute_le computed
    rw [Workspace.withOperands, Frame.pc_withStack]
    apply written.withStack
    have whole := Frame.operandCount_withStack o.stack { f.goto (f.pc + 1) with locals := o.locals }
    have total := written.total
    change _ + f.stack.size = _ at whole
    change _ ≤ (f.pc + 1) * rate
    rw [Nat.succ_mul]
    omega
  | block => exact (paced.enter _ (after next)).mono (Nat.le_succ _)
  | loop => exact (paced.enter _ (Nat.le_refl _)).mono (Nat.le_succ _)
  | @holds _ _ v _ top nonzero =>
    apply ((paced.taking [v] top).enter _ (after next)).mono
    rw [Frame.enter, Frame.pc_withStack]
    exact Nat.le_succ _
  | @fails type _ below top =>
    have taken := paced.taking [0] top
    have function := Frame.function_withStack ⟨below⟩ (f.goto (f.pc + 1))
    unfold Frame.enterElse
    rw [function]
    split
    · rename_i elsePc found
      have later := (Function.matchingElse_spec next found).1
      have entered := (taken.goto (elsePc + 1)).enter type (after next)
      exact entered.mono (Nat.le_succ_of_le (Nat.le_of_lt later))
    · exact (taken.goto _).mono (after next)
  | otherwise =>
    rw [Frame.exit_eq_unwind]
    exact paced.unwind within 0
  | close =>
    apply paced.leave.mono
    unfold Frame.leave
    split
    · exact within
    · exact Nat.le_succ _
  | br branched =>
    obtain ⟨-, rfl⟩ := Frame.branch_eq_ok_iff.mp branched
    exact paced.unwind within _
  | @taken _ _ _ below _ top nonzero branched =>
    obtain ⟨-, rfl⟩ := Frame.branch_eq_ok_iff.mp branched
    have taken := paced.taking [_] top
    exact taken.unwind (by rwa [Frame.function_withStack]) _
  | passed top =>
    rw [Frame.pc_withStack]
    exact (paced.taking [0] top).mono (Nat.le_succ _)

end Instruction

namespace Machine

variable {m m' : Machine} {bound depth : Nat} {f : Frame} {lower : List Frame}

/-- The rate for a frame with the given frames below it: what the frames above it can hand down. -/
def rate (bound depth : Nat) (lower : List Frame) : Nat := bound ^ (depth - 1 - lower.length)

/-- The rate of a caller is what a whole body leaves at the rate of the callee. -/
theorem rate_cons (bound : Nat) {caller : Frame} (room : (caller :: lower).length < depth) :
    bound * rate bound depth (caller :: lower) = rate bound depth lower := by
  have exponent : depth - 1 - lower.length = depth - 1 - (caller :: lower).length + 1 := by
    rw [List.length_cons] at room ⊢
    omega
  rw [rate, rate, exponent, pow_succ, Nat.mul_comm]

/-- Frames that wait for a callee have not been handed its operands yet. -/
def Waiting (bound depth : Nat) : List Frame → Prop
  | [] => True
  | f :: lower => (∃ passed, f.pc = passed + 1 ∧ f.Paced (rate bound depth lower) passed) ∧ Waiting bound depth lower

theorem Waiting.exists_passed {upper : List Frame} (waiting : Waiting bound depth (upper ++ f :: lower)) :
    ∃ passed, f.pc = passed + 1 ∧ f.Paced (rate bound depth lower) passed := by
  induction upper with
  | nil => exact waiting.1
  | cons next upper ih => exact ih waiting.2

/-- The active frame and those below it keep to the pace, and there are not too many of them. -/
def Paced (bound depth : Nat) : List Frame → Prop
  | [] => True
  | f :: lower => f.Paced (rate bound depth lower) f.pc ∧ Waiting bound depth lower ∧ lower.length < depth

namespace Paced

theorem retire (short : ∀ f ∈ m.frames, f.pc ≤ bound) (paced : Paced bound depth m.frames) :
    Paced bound depth m.retire.frames := by
  unfold Machine.retire
  split
  · exact paced
  · trivial
  · rename_i top caller lower frames
    rw [frames] at paced short
    obtain ⟨paced, ⟨⟨passed, position, waiting⟩, rest⟩, room⟩ := paced
    refine ⟨?_, rest, Nat.lt_of_succ_lt room⟩
    have few : top.results.length ≤ rate bound depth lower := by
      rw [Frame.results, OperandStack.length_toList, ← rate_cons bound room]
      have total := Nat.le_trans top.size_stack_le paced.total
      exact Nat.le_trans total (Nat.mul_le_mul_right _ (short top List.mem_cons_self))
    rw [Frame.extend, Frame.pc_withStack, position]
    exact waiting.extend few

theorem retireFinished (short : ∀ f ∈ m.frames, f.pc ≤ bound) (paced : Paced bound depth m.frames) :
    Paced bound depth m.retireFinished.frames := by
  unfold Machine.retireFinished
  split
  · exact paced
  · split
    · exact paced.retire short
    · exact paced

theorem advances (positive : 1 ≤ bound) (lengths : ∀ f ∈ m.functions, f.size ≤ bound)
    (sound : ∀ f ∈ m.frames, f.Sound m.functions) (advances : Advances m m')
    (paced : Paced bound m.maxDepth m.frames) : Paced bound m.maxDepth m'.frames := by
  have short {f : Frame} (sound : f.Sound m.functions) : f.pc ≤ bound :=
    Nat.le_trans sound.pc (lengths f.function sound.known)
  cases advances with
  | rests => exact paced
  | retires => exact paced.retire fun f member => short (sound f member)
  | @acts f callers i w frames next moves =>
    rw [frames] at paced sound
    obtain ⟨paced, waiting, room⟩ := paced
    have moved := (frameInvariant_sound false m.functions).moves next moves (sound f List.mem_cons_self)
    apply Paced.retireFinished
    · intro g member
      rcases List.mem_cons.mp member with rfl | member
      · exact short moved
      · exact short (sound g (List.mem_cons_of_mem f member))
    · exact ⟨moves.paced (Nat.pow_pos positive) next paced, waiting, room⟩
  | @calls called f callers index frames next opens =>
    rw [frames] at paced sound
    obtain ⟨paced, waiting, room⟩ := paced
    have passed := (frameInvariant_sound false m.functions).passes next (sound f List.mem_cons_self)
    cases opens with
    | first idle => cases idle
    | @nested function caller callers' args below opened known free count taken =>
      obtain ⟨rfl, rfl⟩ := List.cons.inj opened
      apply Paced.retireFinished
      · intro g member
        rcases List.mem_cons.mp member with rfl | member
        · exact Nat.zero_le _
        rcases List.mem_cons.mp member with rfl | member
        · rw [Frame.pc_withStack]
          exact short passed
        · exact short (sound g (List.mem_cons_of_mem f member))
      · refine ⟨.entering function args, ⟨⟨f.pc, Frame.pc_withStack _ _, ?_⟩, waiting⟩, free⟩
        exact (paced.goto (f.pc + 1)).taking _ taken

/-- A frame among those that keep to the pace does so itself, and there is room for it. -/
theorem exists_passed {upper : List Frame} (paced : Paced bound depth (upper ++ f :: lower)) :
    lower.length < depth ∧ ∃ passed ≤ f.pc, f.Paced (rate bound depth lower) passed := by
  cases upper with
  | nil =>
    obtain ⟨paced, -, room⟩ := paced
    exact ⟨room, f.pc, Nat.le_refl _, paced⟩
  | cons top upper =>
    obtain ⟨-, waiting, room⟩ := paced
    obtain ⟨passed, position, paced⟩ := waiting.exists_passed
    have room : (upper ++ f :: lower).length < depth := room
    rw [List.length_append, List.length_cons] at room
    exact ⟨by omega, passed, by omega, paced⟩

end Paced

/-- What holds of the frames of a machine all along a run. -/
structure PacedRun (bound : Nat) (initial m : Machine) : Prop where
  setup : initial.SameSetup m
  sound : ∀ f ∈ m.frames, f.Sound initial.functions
  paced : Paced bound initial.maxDepth m.frames

theorem PacedRun.advances {initial : Machine} (positive : 1 ≤ bound)
    (lengths : ∀ f ∈ initial.functions, f.size ≤ bound) (advances : Advances m m')
    (run : PacedRun bound initial m) : PacedRun bound initial m' := by
  obtain ⟨setup, sound, paced⟩ := run
  have functions := setup.functions
  have depth := setup.maxDepth
  refine ⟨setup.trans (.advances advances), ?_, ?_⟩
  · rw [← functions] at sound ⊢
    exact (frameInvariant_sound false m.functions).advances advances sound
  · rw [← functions] at sound lengths
    rw [← depth] at paced ⊢
    exact paced.advances positive lengths sound advances

/-- However long a run is, a frame with `k` others below it never holds more operands than the length
of the bodies to the power of the number of frames that there may be besides those `k`. -/
theorem operandCount_le_of_steps {m started m' : Machine} {index : UInt32} {args : List Value} {bound n : Nat}
    (room : 1 ≤ m.maxDepth) (positive : 1 ≤ bound) (lengths : ∀ f ∈ m.functions, f.size ≤ bound)
    (starts : start index args m = .ok () started) (steps : Steps n started m') :
    m'.frames.length ≤ m.maxDepth ∧
      ∀ k f, m'.frameAt? k = some f → f.operandCount ≤ bound ^ (m.maxDepth - k) := by
  obtain ⟨-, f, known, count, rfl⟩ := start_eq_ok_iff.mp starts
  have initial : PacedRun bound m { m with frames := [.entering f args], results := [] } := by
    refine ⟨⟨rfl, rfl, rfl⟩, ?_, .entering f args, trivial, room⟩
    intro g member
    obtain rfl := List.mem_singleton.mp member
    exact .entering (List.mem_of_getElem? known) count
  obtain ⟨setup, sound, paced⟩ := steps.preserves (fun _ _ => PacedRun.advances positive lengths) initial
  constructor
  · cases frames : m'.frames with
    | nil => exact Nat.zero_le _
    | cons active lower =>
      rw [frames] at paced
      exact paced.2.2
  · intro k g found
    obtain ⟨upper, lower, frames, rfl⟩ := frameAt?_eq_some_iff.mp found
    rw [frames] at paced sound
    obtain ⟨below, passed, within, paced⟩ := paced.exists_passed
    have sound := sound g (List.mem_append_right _ List.mem_cons_self)
    have short : passed ≤ bound := Nat.le_trans within (Nat.le_trans sound.pc (lengths g.function sound.known))
    have exponent : m.maxDepth - lower.length = m.maxDepth - 1 - lower.length + 1 := by omega
    calc g.operandCount
      _ ≤ passed * bound ^ (m.maxDepth - 1 - lower.length) := paced.total
      _ ≤ bound * bound ^ (m.maxDepth - 1 - lower.length) := Nat.mul_le_mul_right _ short
      _ = bound ^ (m.maxDepth - lower.length) := by rw [exponent, pow_succ, Nat.mul_comm]

/-- A loop that calls for operands again and again, and the function that it calls, which leaves two of them
each time. -/
def hoarders : Machine :=
  let main : Function := { body := #[.enter .loop .empty, .call 1, .call 1, .br 0, .close] }
  let helper : Function := { body := #[.const 1, .const 2] }
  { functions := [main, helper], maxDepth := 2 }

/-- In the third round of the loop its frame still holds only what this round has left. -/
theorem operandCount_le_of_loop :
    ∃ started m' f, start 0 [] hoarders = .ok () started ∧ Steps 23 started m' ∧ m'.frameAt? 0 = some f ∧
      f.operandCount = 4 ∧ f.operandCount ≤ 5 ^ 2 := by
  have run : ∃ started m' f, start 0 [] hoarders = .ok () started ∧ Steps 23 started m' ∧ m'.frameAt? 0 = some f ∧
      f.operandCount = 4 := ⟨_, _, _, rfl, steps_of_runSteps rfl, rfl, rfl⟩
  obtain ⟨started, m', f, starts, steps, found, count⟩ := run
  have lengths : ∀ f ∈ hoarders.functions, f.size ≤ 5 := by decide
  obtain ⟨-, bounded⟩ := operandCount_le_of_steps (by decide) (by decide) lengths starts steps
  exact ⟨started, m', f, starts, steps, found, count, bounded 0 f found⟩

end Machine

end ScopeMachine
