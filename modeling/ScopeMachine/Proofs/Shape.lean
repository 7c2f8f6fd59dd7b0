import ScopeMachine.Proofs.Operation

/-! # Scopes without their operands

Where a frame goes depends on the types and targets of its open scopes and not on their operands.
`Frame.shapes` lists them, `Frame.unwind` is what every way of leaving scopes by a jump comes to, and
`Instruction.Routes` lists where an instruction can take a frame. `Machine.FrameInvariant` collects
what has to be shown of single frames for a property to hold of all frames of a machine after every
transition.
-/

namespace ScopeMachine

/-- The type of a scope and where a branch to it continues. -/
def Scope.shape (s : Scope) : BlockType × Nat := (s.type, s.target)

namespace Frame

/-- The shapes of the scopes that instructions have opened, the innermost first. -/
def shapes (f : Frame) : List (BlockType × Nat) := f.inner.map Scope.shape

@[simp] theorem shapes_withStack (s : OperandStack) (f : Frame) :
    (f.withStack s).shapes = f.shapes := by
  unfold shapes withStack
  cases f.inner <;> rfl

@[simp] theorem shapes_goto (pc : Nat) (f : Frame) : (f.goto pc).shapes = f.shapes := rfl

@[simp] theorem shapes_enter (type : BlockType) (target : Nat) (f : Frame) :
    (f.enter type target).shapes = (type, target) :: f.shapes := rfl

@[simp] theorem length_shapes (f : Frame) : f.shapes.length = f.inner.length := List.length_map ..

theorem reverse_scopes (f : Frame) : f.scopes.reverse = f.root :: f.inner.reverse := by
  rw [scopes, List.reverse_append]
  rfl

/-- Leaves `n + 1` scopes and continues at the target of the last of them. Past all scopes that
instructions have opened this is the function body, which is finished but not left. -/
def unwind (n : Nat) (f : Frame) : Frame :=
  { f with inner := f.inner.drop (n + 1), pc := f.inner[n]?.elim f.function.size Scope.target }

theorem branch_eq (label : UInt32) (f : Frame) :
    f.branch label =
      if label.toNat ≤ f.inner.length then .ok (f.unwind label.toNat) else .error (.unknownLabel label) := by
  unfold branch unwind
  split
  · rename_i scope found
    obtain ⟨bound, -⟩ := List.getElem?_eq_some_iff.mp found
    rw [if_pos (Nat.le_of_lt bound), found]
    rfl
  · rename_i missing
    have beyond := List.getElem?_eq_none_iff.mp missing
    by_cases last : label.toNat = f.inner.length
    · rw [if_pos last, if_pos (Nat.le_of_eq last), missing, List.drop_of_length_le (Nat.le_succ_of_le beyond)]
      rfl
    · rw [if_neg last, if_neg (fun le => last (Nat.le_antisymm le beyond))]

theorem exit_eq_unwind (f : Frame) : f.exit = f.unwind 0 := by
  obtain ⟨function, base, inner, locals, pc⟩ := f
  cases inner <;> rfl

@[simp] theorem shapes_unwind (n : Nat) (f : Frame) : (f.unwind n).shapes = f.shapes.drop (n + 1) :=
  List.map_drop

theorem pc_unwind (n : Nat) (f : Frame) :
    (f.unwind n).pc = f.shapes[n]?.elim f.function.size Prod.snd := by
  unfold unwind shapes
  rw [List.getElem?_map]
  cases f.inner[n]? <;> rfl

theorem branch_eq_ok_iff {label : UInt32} {f g : Frame} :
    f.branch label = .ok g ↔ label.toNat ≤ f.inner.length ∧ g = f.unwind label.toNat := by
  rw [branch_eq]
  constructor
  · intro branched
    split at branched
    · rename_i within
      cases branched
      exact ⟨within, rfl⟩
    · cases branched
  · rintro ⟨within, rfl⟩
    exact if_pos within

end Frame

namespace Instruction

/-- Where an instruction at `pc` can take a frame of a function, with which scopes open before and
after it. -/
inductive Routes (f : Function) (pc : Nat) (shapes : List (BlockType × Nat)) :
    Instruction → List (BlockType × Nat) → Nat → Prop
  | onward {i : Instruction} (isPlain : i.isPlain = true) : Routes f pc shapes i shapes (pc + 1)
  | block {type : BlockType} :
      Routes f pc shapes (enter .block type) ((type, f.afterEnd pc) :: shapes) (pc + 1)
  | loop {type : BlockType} : Routes f pc shapes (enter .loop type) ((type, pc) :: shapes) (pc + 1)
  | holds {type : BlockType} :
      Routes f pc shapes (enter .cond type) ((type, f.afterEnd pc) :: shapes) (pc + 1)
  | alternative {type : BlockType} {elsePc : Nat} (found : f.matchingElse pc = some elsePc) :
      Routes f pc shapes (enter .cond type) ((type, f.afterEnd pc) :: shapes) (elsePc + 1)
  | skips {type : BlockType} (none : f.matchingElse pc = none) :
      Routes f pc shapes (enter .cond type) shapes (f.afterEnd pc)
  | otherwise :
      Routes f pc shapes otherwise (shapes.drop 1) (shapes[0]?.elim f.size Prod.snd)
  | close : Routes f pc shapes close (shapes.drop 1) (if shapes = [] then f.size else pc + 1)
  | br {label : UInt32} (within : label.toNat ≤ shapes.length) :
      Routes f pc shapes (br label) (shapes.drop (label.toNat + 1))
        (shapes[label.toNat]?.elim f.size Prod.snd)
  | taken {label : UInt32} (within : label.toNat ≤ shapes.length) :
      Routes f pc shapes (brIf label) (shapes.drop (label.toNat + 1))
        (shapes[label.toNat]?.elim f.size Prod.snd)
  | passed {label : UInt32} : Routes f pc shapes (brIf label) shapes (pc + 1)

/-- An instruction takes a frame along one of its routes and keeps the function and the number of
locals. -/
theorem Moves.routes {f : Frame} {globals : List Value} {i : Instruction} {w : Workspace}
    (moves : i.Moves f.pc { frame := f.goto (f.pc + 1), globals } w) :
    i.Routes f.function f.pc f.shapes w.frame.shapes w.frame.pc ∧ w.frame.function = f.function ∧
      w.frame.locals.length = f.locals.length := by
  cases moves with
  | @plain _ _ o isPlain computed =>
    refine ⟨?_, Frame.function_withStack _ _, ?_⟩
    · rw [Workspace.withOperands, Frame.shapes_withStack, Frame.pc_withStack]
      exact .onward isPlain
    · rw [Workspace.withOperands, Frame.locals_withStack]
      exact (compute_lengths computed).1
  | block => exact ⟨.block, rfl, rfl⟩
  | loop => exact ⟨.loop, rfl, rfl⟩
  | @holds _ _ _ below top nonzero =>
    refine ⟨?_, Frame.function_withStack _ _, congrArg List.length (Frame.locals_withStack _ _)⟩
    have pc := Frame.pc_withStack ⟨below⟩ (f.goto (f.pc + 1))
    rw [Frame.shapes_enter, Frame.shapes_withStack]
    exact pc ▸ .holds
  | @fails type _ below top =>
    have function := Frame.function_withStack ⟨below⟩ (f.goto (f.pc + 1))
    have locals := Frame.locals_withStack ⟨below⟩ (f.goto (f.pc + 1))
    have shapes := Frame.shapes_withStack ⟨below⟩ (f.goto (f.pc + 1))
    unfold Frame.enterElse
    rw [function]
    cases found : (f.goto (f.pc + 1)).function.matchingElse f.pc with
    | some elsePc =>
      refine ⟨?_, function, congrArg List.length locals⟩
      rw [Frame.shapes_enter, Frame.shapes_goto, shapes]
      exact .alternative found
    | none =>
      refine ⟨?_, function, congrArg List.length locals⟩
      rw [Frame.shapes_goto, shapes]
      exact .skips found
  | otherwise =>
    rw [Frame.exit_eq_unwind]
    refine ⟨?_, rfl, rfl⟩
    rw [Frame.shapes_unwind, Frame.pc_unwind]
    exact .otherwise
  | close =>
    obtain ⟨function, base, inner, locals, pc⟩ := f
    cases inner with
    | nil => exact ⟨.close, rfl, rfl⟩
    | cons scope outer => exact ⟨.close, rfl, rfl⟩
  | br branched =>
    obtain ⟨within, rfl⟩ := Frame.branch_eq_ok_iff.mp branched
    refine ⟨?_, rfl, rfl⟩
    rw [Frame.shapes_unwind, Frame.pc_unwind]
    exact .br (f.length_shapes ▸ within)
  | @taken _ _ _ below _ top nonzero branched =>
    obtain ⟨within, rfl⟩ := Frame.branch_eq_ok_iff.mp branched
    refine ⟨?_, Frame.function_withStack _ _, congrArg List.length (Frame.locals_withStack _ _)⟩
    rw [Frame.length_inner_withStack] at within
    rw [Frame.shapes_unwind, Frame.pc_unwind, Frame.shapes_withStack, Frame.function_withStack]
    exact .taken (f.length_shapes ▸ within)
  | passed top =>
    refine ⟨?_, Frame.function_withStack _ _, congrArg List.length (Frame.locals_withStack _ _)⟩
    rw [Frame.shapes_withStack, Frame.pc_withStack]
    exact .passed

end Instruction

namespace Machine

/-- What has to be shown of single frames for a property of all frames to survive transitions. The
mark says whether a failing step is among them. -/
structure FrameInvariant (mark : Bool) (functions : List Function) (P : Frame → Prop) : Prop where
  withStack : ∀ {f : Frame} (s : OperandStack), P f → P (f.withStack s)
  entering : ∀ {f : Function} {args : List Value}, f ∈ functions → args.length = f.params.length →
    P (.entering f args)
  moves : ∀ {f : Frame} {i : Instruction} {globals : List Value} {w : Workspace},
    f.instruction? = some i → i.Moves f.pc { frame := f.goto (f.pc + 1), globals } w → P f → P w.frame
  passes : ∀ {f : Frame} {index : UInt32}, f.instruction? = some (.call index) → P f →
    P (f.goto (f.pc + 1))
  traps : mark = true → ∀ {f : Frame} {i : Instruction}, f.instruction? = some i → P f →
    P (f.goto (f.pc + 1))

namespace FrameInvariant

variable {mark : Bool} {m m' : Machine} {P : Frame → Prop}

theorem retire {functions : List Function} (invariant : FrameInvariant mark functions P)
    (all : ∀ f ∈ m.frames, P f) : ∀ f ∈ m.retire.frames, P f := by
  unfold Machine.retire
  split
  · exact all
  · intro f member
    cases member
  · rename_i frame caller callers frames
    rw [frames] at all
    intro f member
    rcases List.mem_cons.mp member with rfl | member
    · exact invariant.withStack _ (all caller (by simp))
    · exact all f (by simp [member])

theorem retireFinished {functions : List Function} (invariant : FrameInvariant mark functions P)
    (all : ∀ f ∈ m.frames, P f) : ∀ f ∈ m.retireFinished.frames, P f := by
  unfold Machine.retireFinished
  split
  · exact all
  · split_ifs
    · exact invariant.retire all
    · exact all

theorem opens {index : UInt32} (opens : Opens index m m') (invariant : FrameInvariant mark m.functions P)
    (all : ∀ f ∈ m.frames, P f) : ∀ f ∈ m'.frames, P f := by
  cases opens with
  | first idle known room none =>
    intro f member
    obtain rfl := List.mem_singleton.mp member
    exact invariant.entering (List.mem_of_getElem? known) (by simp [none])
  | nested frames known room count taken =>
    rw [frames] at all
    intro f member
    rcases List.mem_cons.mp member with rfl | member
    · exact invariant.entering (List.mem_of_getElem? known) count
    rcases List.mem_cons.mp member with rfl | member
    · exact invariant.withStack _ (all _ (by simp))
    · exact all f (by simp [member])

theorem advances (invariant : FrameInvariant mark m.functions P) (advances : Advances m m')
    (all : ∀ f ∈ m.frames, P f) : ∀ f ∈ m'.frames, P f := by
  cases advances with
  | rests => exact all
  | retires => exact invariant.retire all
  | acts frames next moves =>
    rw [frames] at all
    apply invariant.retireFinished
    intro f member
    rcases List.mem_cons.mp member with rfl | member
    · exact invariant.moves next moves (all _ (by simp))
    · exact all f (by simp [member])
  | @calls called f callers index frames next opened =>
    rw [frames] at all
    have passed : ∀ g ∈ f.goto (f.pc + 1) :: callers, P g := by
      intro g member
      rcases List.mem_cons.mp member with rfl | member
      · exact invariant.passes next (all _ (by simp))
      · exact all g (by simp [member])
    exact invariant.retireFinished (FrameInvariant.opens opened invariant passed)

/-- A property of all frames that is an invariant of single frames survives every transition. -/
theorem transition (invariant : FrameInvariant mark m.functions P) (transition : Transition mark m m')
    (all : ∀ f ∈ m.frames, P f) : ∀ f ∈ m'.frames, P f := by
  cases transition with
  | addFunction | addGlobal | addExport | withMaxDepth | dropResults => exact all
  | start idle known count =>
    intro f member
    obtain rfl := List.mem_singleton.mp member
    exact invariant.entering (List.mem_of_getElem? known) count
  | opens opened => exact FrameInvariant.opens opened invariant all
  | advances advanced => exact invariant.advances advanced all
  | traps failed =>
    obtain ⟨f, callers, i, stack, frames, next, rfl⟩ := step_error failed
    rw [frames] at all
    intro g member
    rcases List.mem_cons.mp member with rfl | member
    · exact invariant.withStack _ (invariant.traps rfl next (all _ (by simp)))
    · exact all g (by simp [member])
  | reset =>
    intro f member
    cases member

/-- A property of all frames that is an invariant of single frames holds all through a run. -/
theorem run {started : Machine} {index : UInt32} {args : List Value} {n : Nat}
    (invariant : FrameInvariant false m.functions P) (starts : start index args m = .ok () started)
    (steps : Steps n started m') : ∀ f ∈ m'.frames, P f := by
  obtain ⟨-, f, known, count, rfl⟩ := start_eq_ok_iff.mp starts
  have initial : ∀ g ∈ [Frame.entering f args], P g := by
    intro g member
    obtain rfl := List.mem_singleton.mp member
    exact invariant.entering (List.mem_of_getElem? known) count
  have whole : m'.functions = m.functions ∧ ∀ g ∈ m'.frames, P g := by
    apply steps.preserves (P := fun m' => m'.functions = m.functions ∧ ∀ g ∈ m'.frames, P g) _ ⟨rfl, initial⟩
    rintro before after advanced ⟨same, all⟩
    rw [← same] at invariant
    exact ⟨(SameSetup.advances advanced).functions.trans same, invariant.advances advanced all⟩
  exact whole.2

end FrameInvariant

end Machine

end ScopeMachine
