import ScopeMachine.Proofs.Jump
import ScopeMachine.Proofs.Shape

/-! # Sound machines

A machine that has gone through any history is sound: its frames stay within the bodies of functions
it knows, it holds no results while a frame is active, and its exports name functions that exist. A
failing step leaves a half finished frame behind, which is sound too. In a sound machine every
position that is looked up without asking for it exists.
-/

namespace ScopeMachine

namespace Frame

/-- What holds of every frame of a machine with the given functions. -/
structure Sound (functions : List Function) (f : Frame) : Prop where
  root : ∃ root, f.scopes.getLast? = some root ∧ root.target = f.function.size
  targets : ∀ scope ∈ f.scopes, scope.target ≤ f.function.size
  pc : f.pc ≤ f.function.size
  locals : f.locals.length = f.function.params.length + f.function.locals.length
  known : f.function ∈ functions

/-- A frame is sound as soon as its position and the scopes that instructions have opened are. -/
theorem sound_iff {functions : List Function} {f : Frame} :
    f.Sound functions ↔ (∀ shape ∈ f.shapes, shape.2 ≤ f.function.size) ∧ f.pc ≤ f.function.size ∧
      f.locals.length = f.function.slots.length ∧ f.function ∈ functions := by
  constructor
  · rintro ⟨-, targets, pc, locals, known⟩
    refine ⟨?_, pc, by rw [locals, Function.slots, List.length_append], known⟩
    intro shape member
    obtain ⟨scope, inner, rfl⟩ := List.mem_map.mp member
    exact targets scope (List.mem_append_left _ inner)
  · rintro ⟨shapes, pc, locals, known⟩
    refine ⟨⟨f.root, List.getLast?_concat, rfl⟩, ?_, pc, ?_, known⟩
    · intro scope member
      rcases List.mem_append.mp member with inner | outermost
      · exact shapes scope.shape (List.mem_map_of_mem inner)
      · obtain rfl := List.mem_singleton.mp outermost
        exact Nat.le_refl _
    · rw [locals, Function.slots, List.length_append]

theorem Sound.mono {functions more : List Function} {f : Frame} (sound : f.Sound functions)
    (grows : functions ⊆ more) : f.Sound more :=
  { sound with known := grows sound.known }

theorem Sound.entering {functions : List Function} {f : Function} {args : List Value}
    (known : f ∈ functions) (count : args.length = f.params.length) :
    (Frame.entering f args).Sound functions := by
  refine sound_iff.mpr ⟨nofun, Nat.zero_le _, ?_, known⟩
  simp [Frame.entering, Function.slots, count]

/-- The positions that are looked up in a frame without asking whether they exist, the scopes being
counted from the outside in. -/
structure InRange (f : Frame) : Prop where
  /-- The innermost scope, which every operand is taken from. -/
  innermost : 0 < f.scopes.length ∧
    ∃ scope, f.scopes.reverse[f.scopes.length - 1]? = some scope ∧ scope.stack = f.stack
  /-- The next instruction of a frame that is not finished. -/
  instruction : f.finished = false → ∃ i, f.function.body[f.pc]? = some i
  /-- The scope that a branch leads to, which is left with all scopes in it unless it is the body. -/
  branch : ∀ label : UInt32, label.toNat < f.scopes.length →
    ∃ scope rest, f.scopes.reverse[f.scopes.length - label.toNat - 1]? = some scope ∧
      f.branch label = .ok rest ∧ rest.pc = scope.target ∧
      rest.scopes.reverse = f.scopes.reverse.take (max 1 (f.scopes.length - label.toNat - 1))

theorem innermost_inRange (f : Frame) :
    ∃ scope, f.scopes.reverse[f.scopes.length - 1]? = some scope ∧ scope.stack = f.stack := by
  rw [List.getElem?_reverse (by rw [length_scopes, depth]; omega), Nat.sub_self]
  unfold scopes stack
  cases f.inner with
  | nil => exact ⟨f.root, rfl, rfl⟩
  | cons scope outer => exact ⟨scope, rfl, rfl⟩

theorem unwind_inRange {n : Nat} {f : Frame} (within : n < f.scopes.length) :
    ∃ scope, f.scopes.reverse[f.scopes.length - n - 1]? = some scope ∧ (f.unwind n).pc = scope.target ∧
      (f.unwind n).scopes.reverse = f.scopes.reverse.take (max 1 (f.scopes.length - n - 1)) := by
  have rest : (f.unwind n).scopes.reverse = f.root :: (f.inner.drop (n + 1)).reverse := reverse_scopes _
  rw [length_scopes, depth] at within
  rw [rest, reverse_scopes, length_scopes, depth]
  have reached : n ≤ f.inner.length := by omega
  rcases Nat.lt_or_eq_of_le reached with inside | rfl
  · have position : f.inner.length + 1 - n - 1 = f.inner.length - (n + 1) + 1 := by omega
    have found : f.inner.reverse[f.inner.length - (n + 1)]? = some f.inner[n] := by
      rw [List.getElem?_reverse (by omega), ← List.getElem?_eq_getElem inside]
      congr 1
      omega
    refine ⟨f.inner[n], ?_, ?_, ?_⟩
    · rw [position, List.getElem?_cons_succ, found]
    · rw [unwind, List.getElem?_eq_getElem inside]
      rfl
    · rw [position, Nat.max_eq_right (Nat.succ_pos _), List.take_succ_cons, List.reverse_drop]
  · refine ⟨f.root, ?_, ?_, ?_⟩
    · rw [Nat.add_sub_cancel_left]
      rfl
    · rw [unwind, List.getElem?_eq_none (Nat.le_refl _)]
      rfl
    · rw [Nat.add_sub_cancel_left, List.drop_of_length_le (Nat.le_succ _)]
      rfl

/-- A frame inside its body has nothing out of range. -/
theorem inRange {f : Frame} (within : f.pc ≤ f.function.size) : f.InRange where
  innermost := ⟨by rw [length_scopes, depth]; exact Nat.succ_pos _, f.innermost_inRange⟩
  instruction unfinished := by
    have before : f.pc ≠ f.function.size := of_decide_eq_false unfinished
    have bound : f.pc < f.function.size := by omega
    exact ⟨_, Array.getElem?_eq_getElem bound⟩
  branch label known := by
    obtain ⟨scope, found, target, rest⟩ := unwind_inRange known
    rw [length_scopes, depth] at known
    exact ⟨scope, f.unwind label.toNat, found, branch_eq_ok_iff.mpr ⟨Nat.le_of_lt_succ known, rfl⟩, target, rest⟩

end Frame

namespace Instruction

/-- No route leads out of the body. -/
theorem Routes.within {f : Function} {pc pc' : Nat} {i : Instruction}
    {shapes shapes' : List (BlockType × Nat)} (routes : i.Routes f pc shapes shapes' pc')
    (next : f.body[pc]? = some i) (targets : ∀ shape ∈ shapes, shape.2 ≤ f.size) :
    (∀ shape ∈ shapes', shape.2 ≤ f.size) ∧ pc' ≤ f.size := by
  have bound : pc < f.size := (Array.getElem?_eq_some_iff.mp next).1
  have entered {type : BlockType} {target : Nat} (le : target ≤ f.size) :
      ∀ shape ∈ (type, target) :: shapes, shape.2 ≤ f.size :=
    List.forall_mem_cons.mpr ⟨le, targets⟩
  have left (n : Nat) : (∀ shape ∈ shapes.drop (n + 1), shape.2 ≤ f.size) ∧
      shapes[n]?.elim f.size Prod.snd ≤ f.size := by
    constructor
    · intro shape member
      exact targets shape (List.mem_of_mem_drop member)
    · cases found : shapes[n]? with
      | none => exact Nat.le_refl _
      | some shape => exact targets shape (List.mem_of_getElem? found)
  cases routes with
  | onward | passed => exact ⟨targets, bound⟩
  | block | holds => exact ⟨entered (f.afterEnd_le_size pc), bound⟩
  | loop => exact ⟨entered (Nat.le_of_lt bound), bound⟩
  | alternative found =>
    obtain ⟨-, otherwise⟩ := Function.matchingElse_spec next found
    exact ⟨entered (f.afterEnd_le_size pc), (Array.getElem?_eq_some_iff.mp otherwise).1⟩
  | skips => exact ⟨targets, f.afterEnd_le_size pc⟩
  | otherwise => exact left 0
  | br => exact left _
  | taken => exact left _
  | close =>
    refine ⟨(left 0).1, ?_⟩
    split
    · exact Nat.le_refl _
    · exact bound

end Instruction

namespace Machine

theorem frameInvariant_sound (mark : Bool) (functions : List Function) :
    FrameInvariant mark functions (Frame.Sound functions) where
  withStack s sound := by
    rw [Frame.sound_iff] at sound ⊢
    rwa [Frame.shapes_withStack, Frame.function_withStack, Frame.pc_withStack, Frame.locals_withStack]
  entering known count := .entering known count
  moves next moves sound := by
    obtain ⟨targets, -, locals, known⟩ := Frame.sound_iff.mp sound
    obtain ⟨routes, function, length⟩ := moves.routes
    rw [Frame.sound_iff, function, length]
    obtain ⟨targets, pc⟩ := routes.within next targets
    exact ⟨targets, pc, locals, known⟩
  passes next sound := { sound with pc := (Array.getElem?_eq_some_iff.mp next).1 }
  traps _ _ _ next sound := { sound with pc := (Array.getElem?_eq_some_iff.mp next).1 }

/-- Functions and exports are only ever added, behind those that are there already. -/
structure Grows (m m' : Machine) : Prop where
  functions : m.functions <+: m'.functions
  exports : m.exports <+: m'.exports

namespace Grows

variable {mark : Bool} {m m' m'' : Machine}

theorem of_sameSetup (same : m.SameSetup m') : m.Grows m' :=
  ⟨same.functions ▸ List.prefix_refl _, same.exports ▸ List.prefix_refl _⟩

theorem refl (m : Machine) : m.Grows m := of_sameSetup (.refl m)

theorem trans (left : m.Grows m') (right : m'.Grows m'') : m.Grows m'' :=
  ⟨left.functions.trans right.functions, left.exports.trans right.exports⟩

theorem transition (transition : Transition mark m m') : m.Grows m' := by
  cases transition with
  | addFunction => exact ⟨List.prefix_append _ _, List.prefix_refl _⟩
  | addExport => exact ⟨List.prefix_refl _, List.prefix_append _ _⟩
  | addGlobal | withMaxDepth | start | dropResults | reset => exact ⟨List.prefix_refl _, List.prefix_refl _⟩
  | opens opened => exact of_sameSetup (.opens opened)
  | advances advanced => exact of_sameSetup (.advances advanced)
  | traps failed => exact of_sameSetup (.of_step_error failed)

theorem history {ops : List Operation} (history : History ops m m') : m.Grows m' :=
  history.preserves (fun _ _ _ transition grows => grows.trans (.transition transition)) (refl m)

/-- A name that has been given to a function keeps standing for it. -/
theorem functionIndex? {name : String} {index : UInt32} (grows : m.Grows m')
    (known : m.functionIndex? name = some index) : m'.functionIndex? name = some index :=
  grows.exports.lookup_eq_some known

end Grows

/-- What holds of a machine that has gone through any history. -/
structure Sound (m : Machine) : Prop where
  frames : ∀ f ∈ m.frames, f.Sound m.functions
  results : m.frames ≠ [] → m.results = []
  exports : ∀ named ∈ m.exports, named.2.toNat < m.functions.length

namespace Sound

variable {mark : Bool} {m m' : Machine}

private theorem results_retire (quiet : m.frames ≠ [] → m.results = []) :
    m.retire.frames ≠ [] → m.retire.results = [] := by
  unfold Machine.retire
  split
  · exact quiet
  · exact fun busy => (busy rfl).elim
  · rename_i frames
    exact fun _ => quiet (by rw [frames]; exact List.cons_ne_nil _ _)

private theorem results_retireFinished (quiet : m.frames ≠ [] → m.results = []) :
    m.retireFinished.frames ≠ [] → m.retireFinished.results = [] := by
  unfold Machine.retireFinished
  split
  · exact quiet
  · split_ifs
    · exact results_retire quiet
    · exact quiet

private theorem results_opens {index : UInt32} (opens : Opens index m m')
    (quiet : m.frames ≠ [] → m.results = []) : m'.frames ≠ [] → m'.results = [] := by
  cases opens with
  | first => exact fun _ => rfl
  | nested frames => exact fun _ => quiet (by rw [frames]; exact List.cons_ne_nil _ _)

private theorem results_transition (transition : Transition mark m m')
    (quiet : m.frames ≠ [] → m.results = []) : m'.frames ≠ [] → m'.results = [] := by
  cases transition with
  | addFunction | addGlobal | addExport | withMaxDepth => exact quiet
  | start | dropResults | reset => exact fun _ => rfl
  | opens opened => exact results_opens opened quiet
  | advances advanced =>
    cases advanced with
    | rests => exact quiet
    | retires => exact results_retire quiet
    | acts frames => exact results_retireFinished fun _ => quiet (by rw [frames]; exact List.cons_ne_nil _ _)
    | calls frames _ opened =>
      apply results_retireFinished
      apply results_opens opened
      intro _
      apply quiet
      rw [frames]
      exact List.cons_ne_nil _ _
  | traps failed =>
    obtain ⟨f, callers, i, stack, frames, next, rfl⟩ := step_error failed
    exact fun _ => quiet (by rw [frames]; exact List.cons_ne_nil _ _)

private theorem exports_transition (transition : Transition mark m m')
    (known : ∀ named ∈ m.exports, named.2.toNat < m.functions.length) :
    ∀ named ∈ m'.exports, named.2.toNat < m'.functions.length := by
  have grows := Grows.transition transition
  have kept (same : m'.exports = m.exports) : ∀ named ∈ m'.exports, named.2.toNat < m'.functions.length :=
    fun named member => Nat.lt_of_lt_of_le (known named (same ▸ member)) grows.functions.length_le
  cases transition with
  | addExport bound _ =>
    intro named member
    rcases List.mem_append.mp member with old | new
    · exact known named old
    · obtain rfl := List.mem_singleton.mp new
      exact bound
  | opens opened => exact kept (SameSetup.opens opened).exports
  | advances advanced => exact kept (SameSetup.advances advanced).exports
  | traps failed => exact kept (SameSetup.of_step_error failed).exports
  | addFunction | addGlobal | withMaxDepth | start | dropResults | reset => exact kept rfl

theorem transition (transition : Transition mark m m') (sound : m.Sound) : m'.Sound where
  frames f member :=
    ((frameInvariant_sound mark m.functions).transition transition sound.frames f member).mono
      (Grows.transition transition).functions.subset
  results := results_transition transition sound.results
  exports := exports_transition transition sound.exports

theorem empty : Machine.empty.Sound := ⟨nofun, nofun, nofun⟩

theorem history {ops : List Operation} (history : History ops m m') (sound : m.Sound) : m'.Sound :=
  history.preserves (fun _ _ _ => transition) sound

end Sound

/-- Whatever has been done to a machine, and whatever of it has failed, its frames are inside their
functions, an active frame keeps results away, nothing that is looked up unchecked is missing, and
exported names stand for the same existing functions ever after. -/
theorem safe_after_history {ops : List Operation} {m : Machine} (history : History ops .empty m) :
    m.Sound ∧ (∀ f ∈ m.frames, f.InRange) ∧
      (∀ named ∈ m.exports, ∃ f, m.functions[named.2.toNat]? = some f) ∧
      ∀ later m', History later m m' → ∀ name index,
        m.functionIndex? name = some index → m'.functionIndex? name = some index := by
  have sound : m.Sound := .history history .empty
  refine ⟨sound, ?_, ?_, ?_⟩
  · intro f member
    exact Frame.inRange (sound.frames f member).pc
  · intro named member
    exact ⟨_, List.getElem?_eq_getElem (sound.exports named member)⟩
  · intro later m' after name index known
    exact (Grows.history after).functionIndex? known

/-- A machine that goes on after a missing operand has trapped inside a scope. -/
theorem safe_after_trap :
    ∃ m, History [.addFunction { body := #[.enter .block .empty, .drop, .const 1, .close] },
        .addExport "main" 0, .start 0 [], .step, .step, .step] .empty m ∧
      m.frames.map Frame.pc = [3] ∧ m.Sound ∧ (∀ f ∈ m.frames, f.InRange) ∧
      (∀ named ∈ m.exports, ∃ f, m.functions[named.2.toNat]? = some f) ∧
      ∀ later m', History later m m' → ∀ name index,
        m.functionIndex? name = some index → m'.functionIndex? name = some index := by
  have history : ∃ m, History [.addFunction { body := #[.enter .block .empty, .drop, .const 1, .close] },
      .addExport "main" 0, .start 0 [], .step, .step, .step] .empty m ∧ m.frames.map Frame.pc = [3] :=
    ⟨_, .cons 0 rfl (.cons 0 rfl (.cons 0 rfl (.cons 0 rfl (.cons 0 rfl (.cons 0 rfl (.nil _)))))), rfl⟩
  obtain ⟨m, history, trapped⟩ := history
  exact ⟨m, history, trapped, safe_after_history history⟩

end Machine

end ScopeMachine
