import ScopeMachine.Proofs.OpenScopes
import ScopeMachine.Proofs.Soundness

/-! # Machines without loops

Without loops no jump leads back: a branch continues behind the end of a scope that is still open, and
so does whatever passes over an alternative (`Instruction.Routes.forward`). A frame then executes each
of its instructions once at most, but a call opens a frame that starts from the beginning, and a frame
that is finished may need a step to be retired. So an instruction is charged with all that its callee
may take, down to the last frame there is room for (`Machine.instructionCost`), and what the frames
still have to pay falls with every step (`Machine.remaining_lt`).
-/

namespace ScopeMachine

/-- Whether an instruction opens a loop. -/
def Instruction.isLoop : Instruction → Bool
  | enter .loop _ => true
  | _ => false

namespace Function

variable {f : Function} {pc : Nat} {shapes : List (BlockType × Nat)}

/-- No instruction of the body opens a loop. -/
def LoopFree (f : Function) : Prop := ∀ i ∈ f.body, i.isLoop = false

instance (f : Function) : Decidable f.LoopFree := inferInstanceAs (Decidable (∀ i ∈ f.body, i.isLoop = false))

/-- An open scope continues behind the present position, unless it is that of a loop, which continues at its
opener. -/
theorem lt_target_or_loop (bound : pc < f.size) (tracks : f.Tracks shapes pc) (n : Nat) :
    pc < shapes[n]?.elim f.size Prod.snd ∨ ∃ opener type, (f.enclosing pc)[n]? = some opener ∧
      f.body[opener]? = some (.enter .loop type) ∧ shapes[n]?.elim f.size Prod.snd = opener := by
  rw [tracks.inside bound, List.getElem?_map]
  cases found : (f.enclosing pc)[n]? with
  | none => exact .inl bound
  | some opener =>
    obtain ⟨before, opens, stillOpen⟩ := mem_enclosing.mp (List.mem_of_getElem? found)
    obtain ⟨kind, type, next⟩ := opens_iff.mp opens
    change pc < (f.scopeAt opener).2 ∨ ∃ opener' type, some opener = some opener' ∧ _ ∧ (f.scopeAt opener).2 = opener'
    by_cases isLoop : kind = .loop
    · subst isLoop
      exact .inr ⟨opener, type, rfl, next, by rw [scopeAt_loop next]⟩
    · rw [scopeAt_of_ne_loop next isLoop]
      exact .inl (Nat.lt_min.mpr ⟨Nat.lt_succ_of_le stillOpen, bound⟩)

/-- The open scopes of a function without loops continue behind the present position. -/
theorem LoopFree.lt_target (loopFree : f.LoopFree) (bound : pc < f.size) (tracks : f.Tracks shapes pc) (n : Nat) :
    pc < shapes[n]?.elim f.size Prod.snd := by
  rcases lt_target_or_loop bound tracks n with onward | ⟨opener, type, -, loop, -⟩
  · exact onward
  · cases loopFree _ (Array.mem_of_getElem? loop)

end Function

/-- In a function without loops every route leads forward. -/
theorem Instruction.Routes.forward {f : Function} {pc pc' : Nat} {i : Instruction}
    {shapes shapes' : List (BlockType × Nat)} (routes : i.Routes f pc shapes shapes' pc') (loopFree : f.LoopFree)
    (next : f.body[pc]? = some i) (tracks : f.Tracks shapes pc) : pc < pc' := by
  have bound : pc < f.size := (Array.getElem?_eq_some_iff.mp next).1
  cases routes with
  | onward | block | holds | passed => exact Nat.lt_succ_self pc
  | loop => cases loopFree _ (Array.mem_of_getElem? next)
  | alternative found => exact Nat.lt_succ_of_lt (Function.matchingElse_spec next found).1
  | skips => exact Function.lt_afterEnd next
  | otherwise | br | taken => exact loopFree.lt_target bound tracks _
  | close =>
    split
    · exact bound
    · exact Nat.lt_succ_self pc

namespace Machine

variable {m m' : Machine} {bound depth : Nat} {f : Frame} {lower : List Frame}

/-- The steps that an instruction can take at most if there is room for so many frames above its own: one
step, and for a call those of all instructions of the callee, and one more to retire it. -/
def instructionCost (bound : Nat) : Nat → Nat
  | 0 => 1
  | room + 1 => bound * instructionCost bound room + 2

theorem instructionCost_pos (bound room : Nat) : 0 < instructionCost bound room := by
  cases room <;> exact Nat.succ_pos _

/-- The steps that all frames together can still take: each executes the rest of its body and is retired. -/
def remaining (bound depth : Nat) : List Frame → Nat
  | [] => 0
  | f :: lower => (f.function.size - f.pc) * instructionCost bound (depth - 1 - lower.length) + 1 +
      remaining bound depth lower

/-- A number of steps that is enough for any run of functions with bodies of the given lengths. -/
def stepBound (lengths : List Nat) (depth : Nat) : Nat :=
  (lengths.max?.getD 0) * instructionCost (lengths.max?.getD 0) (depth - 1) + 1

theorem remaining_retire (busy : m.frames ≠ []) :
    remaining bound depth m.retire.frames < remaining bound depth m.frames := by
  unfold retire
  split
  · rename_i idle
    exact (busy idle).elim
  · rename_i frames
    rw [frames]
    simp only [remaining]
    omega
  · rename_i frames
    rw [frames]
    simp only [remaining, Frame.extend, Frame.function_withStack, Frame.pc_withStack]
    omega

theorem remaining_retireFinished_le :
    remaining bound depth m.retireFinished.frames ≤ remaining bound depth m.frames := by
  unfold retireFinished
  split
  · exact Nat.le_refl _
  · rename_i frames
    split
    · exact Nat.le_of_lt (remaining_retire (by rw [frames]; exact List.cons_ne_nil _ _))
    · exact Nat.le_refl _

/-- The caller pays for all that the callee can take. -/
theorem remaining_call {function : Function} {args : List Value} {s : OperandStack} (within : f.pc < f.function.size)
    (short : function.size ≤ bound) (room : (f :: lower).length < depth) :
    remaining bound depth (.entering function args :: (f.goto (f.pc + 1)).withStack s :: lower) <
      remaining bound depth (f :: lower) := by
  rw [List.length_cons] at room
  have height : depth - 1 - lower.length = depth - 1 - (lower.length + 1) + 1 := by omega
  have rest : f.function.size - f.pc = f.function.size - (f.pc + 1) + 1 := by omega
  have callee : function.size * instructionCost bound (depth - 1 - (lower.length + 1)) ≤
      bound * instructionCost bound (depth - 1 - (lower.length + 1)) := Nat.mul_le_mul_right _ short
  simp only [remaining, List.length_cons, Frame.function_withStack, Frame.pc_withStack, Frame.entering, Frame.goto,
    Nat.sub_zero]
  rw [rest, Nat.succ_mul, height, instructionCost]
  omega

/-- Whatever the active frame does within itself leads it forward. -/
def MovesOn (m : Machine) : Prop :=
  ∀ f callers i w, m.frames = f :: callers → f.instruction? = some i →
    i.Moves f.pc { frame := f.goto (f.pc + 1), globals := m.globals } w → f.pc < w.frame.pc

/-- Every step takes something from what remains. -/
theorem remaining_lt (lengths : ∀ f ∈ m.functions, f.size ≤ bound) (onward : m.MovesOn) (busy : m.frames ≠ [])
    (advances : Advances m m') :
    remaining bound m.maxDepth m'.frames < remaining bound m.maxDepth m.frames := by
  cases advances with
  | rests idle => exact (busy idle).elim
  | retires => exact remaining_retire busy
  | @acts f callers i w frames next moves =>
    apply Nat.lt_of_le_of_lt remaining_retireFinished_le
    have further := onward f callers i w frames next moves
    obtain ⟨-, function, -⟩ := moves.routes
    have within : f.pc < f.function.size := (Array.getElem?_eq_some_iff.mp next).1
    have fewer : f.function.size - w.frame.pc < f.function.size - f.pc := by omega
    have cheaper := Nat.mul_lt_mul_of_pos_right fewer (instructionCost_pos bound (m.maxDepth - 1 - callers.length))
    rw [frames]
    simp only [remaining, function]
    omega
  | @calls called f callers index frames next opens =>
    apply Nat.lt_of_le_of_lt remaining_retireFinished_le
    rw [frames]
    have within : f.pc < f.function.size := (Array.getElem?_eq_some_iff.mp next).1
    cases opens with
    | first idle => cases idle
    | @nested function caller callers' args below opened found free count taken =>
      obtain ⟨rfl, rfl⟩ := List.cons.inj opened
      exact remaining_call within (lengths function (List.mem_of_getElem? found)) free

/-- A run in which every frame moves on takes no more steps than remain at its start. -/
theorem Steps.le_remaining {n : Nat} (steps : Steps n m m') (lengths : ∀ f ∈ m.functions, f.size ≤ bound)
    (onward : ∀ k < n, ∀ mid, Steps k m mid → mid.MovesOn) :
    remaining bound m.maxDepth m'.frames + n ≤ remaining bound m.maxDepth m.frames := by
  induction steps with
  | refl => exact Nat.le_refl _
  | @cons n m next m' busy head _ ih =>
    have advances := step_eq_ok_iff.mp head
    have same := SameSetup.advances advances
    have fewer := remaining_lt lengths (onward 0 (Nat.succ_pos n) m (.refl m)) busy advances
    rw [same.functions, same.maxDepth] at ih
    have rest := ih lengths fun k less mid walk => onward (k + 1) (Nat.succ_lt_succ less) mid (.cons busy head walk)
    omega

/-- All frames that remain still have to be retired. -/
theorem frames_eq_nil_of_remaining (none : remaining bound depth m.frames = 0) : m.frames = [] := by
  cases frames : m.frames with
  | nil => rfl
  | cons f lower =>
    rw [frames, remaining] at none
    omega

theorem size_le_max {functions : List Function} {f : Function} (member : f ∈ functions) :
    f.size ≤ ((functions.map Function.size).max?).getD 0 :=
  List.le_max?_getD_of_mem (List.mem_map_of_mem member)

/-- Nothing remains when as many steps have been taken as there can be if every frame moves on. -/
theorem Steps.remaining_eq_zero_of_movesOn {started : Machine} {index : UInt32} {args : List Value} {limit : Nat}
    (steps : Steps limit started m') (onward : ∀ k < limit, ∀ mid, Steps k started mid → mid.MovesOn)
    (starts : start index args m = .ok () started)
    (enough : stepBound (m.functions.map Function.size) m.maxDepth ≤ limit) :
    remaining ((m.functions.map Function.size).max?.getD 0) m.maxDepth m'.frames = 0 := by
  obtain ⟨-, f, known, count, rfl⟩ := start_eq_ok_iff.mp starts
  have rest := steps.le_remaining (fun f => size_le_max) onward
  have short := Nat.mul_le_mul_right (instructionCost ((m.functions.map Function.size).max?.getD 0) (m.maxDepth - 1))
    (size_le_max (List.mem_of_getElem? known))
  simp only [remaining, Frame.entering, List.length_nil, Nat.sub_zero] at rest
  rw [stepBound] at enough
  omega

/-- All through a run, the frames are those of functions that are known, and their scopes are the ones that
are open at their positions. -/
theorem known_tracks_of_start {started : Machine} {index : UInt32} {args : List Value} {k : Nat}
    (starts : start index args m = .ok () started) (steps : Steps k started m') :
    ∀ f ∈ m'.frames, f.function ∈ m.functions ∧ f.function.Tracks f.shapes f.pc := fun f member =>
  ⟨((frameInvariant_sound false m.functions).run starts steps f member).known,
    (frameInvariant_tracks m.functions).run starts steps f member⟩

/-- Nothing remains when as many steps have been taken as there can be. -/
theorem Steps.remaining_eq_zero {started : Machine} {index : UInt32} {args : List Value} {limit : Nat}
    (steps : Steps limit started m') (loopFree : ∀ f ∈ m.functions, f.LoopFree)
    (starts : start index args m = .ok () started)
    (enough : stepBound (m.functions.map Function.size) m.maxDepth ≤ limit) :
    remaining ((m.functions.map Function.size).max?.getD 0) m.maxDepth m'.frames = 0 := by
  refine steps.remaining_eq_zero_of_movesOn ?_ starts enough
  intro k _ mid walk f callers i w frames next moves
  obtain ⟨known, tracks⟩ := known_tracks_of_start starts walk f (frames ▸ List.mem_cons_self)
  exact moves.routes.1.forward (loopFree f.function known) next tracks

/-- A function that calls itself from inside scopes that nothing closes, so that only the limit on the
number of frames ends its run. -/
def endlessRecursion : Machine :=
  { functions := [{ params := [.i32], body := #[.close, .enter .cond .empty] },
      { params := [.i32], body := #[.localGet 0, .enter .cond .empty, .otherwise, .enter .block .empty, .localGet 0, .call 1,
        .otherwise, .br 0] }]
    maxDepth := 3 }

end Machine

end ScopeMachine
