import ScopeMachine.Proofs.Shape

/-! # Frames at a position with given operands

What a plain instruction does depends on the operands of the innermost scope, the locals and the
globals, and it changes nothing else. `Frame.holding` puts a frame at a position with such operands,
so that a plain instruction leads from one holding frame to the next (`Machine.step_running`).
-/

namespace ScopeMachine

namespace Frame

/-- The frame at a position, with other operands in its innermost scope and other locals. -/
def holding (pc : Nat) (o : Operands) (f : Frame) : Frame :=
  { f with pc, locals := o.locals }.withStack o.stack

/-- The frame with one more scope open, which has left the given stack around it. -/
def inside (type : BlockType) (target : Nat) (around : OperandStack) (f : Frame) : Frame :=
  (f.withStack around).enter type target

section

variable (f : Frame) (pc pc' target : Nat) (o o' : Operands) (s : OperandStack) (type : BlockType)

@[simp] theorem function_holding : (f.holding pc o).function = f.function := function_withStack _ _

@[simp] theorem pc_holding : (f.holding pc o).pc = pc := pc_withStack _ _

@[simp] theorem stack_holding : (f.holding pc o).stack = o.stack := stack_withStack _ _

@[simp] theorem locals_holding : (f.holding pc o).locals = o.locals := locals_withStack _ _

@[simp] theorem length_inner_holding : (f.holding pc o).inner.length = f.inner.length :=
  length_inner_withStack _ _

theorem instruction?_holding : (f.holding pc o).instruction? = f.function.body[pc]? := by
  rw [instruction?, function_holding, pc_holding]

theorem goto_holding : (f.holding pc o).goto pc' = f.holding pc' o := goto_withStack ..

theorem withStack_holding : (f.holding pc o).withStack s = f.holding pc { o with stack := s } :=
  withStack_withStack ..

@[simp] theorem function_inside : (f.inside type target s).function = f.function := function_withStack _ _

@[simp] theorem length_inner_inside : (f.inside type target s).inner.length = f.inner.length + 1 :=
  congrArg (· + 1) (length_inner_withStack s f)

/-- A scope that is entered leaves the operands where they are and has none. -/
theorem enter_holding : (f.holding pc o).enter type target =
    (f.inside type target o.stack).holding pc { o with stack := .empty } := by
  obtain ⟨function, base, inner, locals, old⟩ := f
  cases inner <;> rfl

/-- Leaving a scope brings the operands around it back. -/
theorem leave_holding : ((f.inside type target s).holding pc o).leave.2 =
    f.holding pc { o with stack := s } := by
  obtain ⟨function, base, inner, locals, old⟩ := f
  cases inner <;> rfl

/-- Where a frame stands does not matter to a jump. -/
theorem unwind_holding (n : Nat) : (f.holding pc o).unwind n = (f.holding pc' o).unwind n := by
  obtain ⟨function, base, inner, locals, old⟩ := f
  cases inner <;> rfl

theorem enterElse_holding : (f.holding pc' o).enterElse pc type = match f.function.matchingElse pc with
    | some elsePc =>
      (f.inside type (f.function.afterEnd pc) o.stack).holding (elsePc + 1) { o with stack := .empty }
    | none => f.holding (f.function.afterEnd pc) o := by
  unfold enterElse
  rw [function_holding]
  cases f.function.matchingElse pc with
  | none => exact goto_holding ..
  | some elsePc =>
    dsimp only
    rw [goto_holding, enter_holding]

theorem unwind_zero_holding : ((f.inside type target s).holding pc o).unwind 0 =
    f.holding target { o with stack := s } := by
  obtain ⟨function, base, inner, locals, old⟩ := f
  cases inner <;> rfl

theorem unwind_succ_holding (n : Nat) : ((f.inside type target s).holding pc o).unwind (n + 1) =
    (f.holding pc' { o with stack := s }).unwind n := by
  obtain ⟨function, base, inner, locals, old⟩ := f
  cases inner <;> rfl

end

end Frame

namespace Workspace

theorem operands_holding (f : Frame) (pc : Nat) (o : Operands) :
    operands { frame := f.holding pc o, globals := o.globals } = o := by
  rw [operands, Frame.stack_holding, Frame.locals_holding]

theorem withOperands_holding (f : Frame) (pc : Nat) (o o' : Operands) :
    withOperands o' { frame := f.holding pc o, globals := o.globals } =
      { frame := f.holding pc o', globals := o'.globals } := by
  rw [withOperands, Frame.holding, Frame.withStack_locals, Frame.withStack_withStack]
  rfl

end Workspace

namespace Machine

variable {m : Machine} {callers : List Frame} {f : Frame} {pc : Nat} {o : Operands} {i : Instruction}

/-- The machine with an active frame that holds the given operands. -/
def running (m : Machine) (callers : List Frame) (f : Frame) (pc : Nat) (o : Operands) : Machine :=
  { m with frames := f.holding pc o :: callers, globals := o.globals }

/-- Every machine with an active frame is one that holds the operands of that frame. -/
theorem eq_running (frames : m.frames = f :: callers) :
    m = m.running callers f f.pc (Workspace.operands { frame := f, globals := m.globals }) := by
  have kept : f.holding f.pc (Workspace.operands { frame := f, globals := m.globals }) = f :=
    Frame.withStack_stack f
  rw [running, kept, ← frames]
  rfl

theorem retireFinished_running (here : f.function.body[pc]? = some i) :
    (m.running callers f pc o).retireFinished = m.running callers f pc o := by
  have next : (f.holding pc o).instruction? = some i := by rw [Frame.instruction?_holding, here]
  exact retireFinished_of_next rfl next

/-- A plain instruction computes on the operands that the frame holds. -/
theorem step_running (m : Machine) (callers : List Frame) (o : Operands) (here : f.function.body[pc]? = some i)
    (plain : i.isPlain = true) : step (m.running callers f pc o) = match i.compute o with
      | .ok _ o' => .ok () (m.running callers f (pc + 1) o').retireFinished
      | .error e o' => .error e (m.running callers f (pc + 1) o') := by
  have next : (f.holding pc o).instruction? = some i := by rw [Frame.instruction?_holding, here]
  have notCall : ∀ index, i ≠ .call index := by
    rintro index rfl
    cases plain
  have effect := Instruction.effect_of_isPlain plain pc { frame := f.holding (pc + 1) o, globals := o.globals }
  rw [Workspace.operands_holding] at effect
  rw [step_of_effect rfl next notCall, Frame.pc_holding, Frame.goto_holding]
  simp only [running, effect]
  cases i.compute o <;> simp only [Workspace.withOperands_holding]

end Machine

end ScopeMachine
