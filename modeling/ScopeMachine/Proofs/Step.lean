import Mathlib.Tactic.SplitIfs
import ScopeMachine.Machine.Run
import ScopeMachine.Proofs.Effect

/-! # What a step does

`Machine.Advances` lists everything that a step can do when it succeeds: retire a frame that has
nothing left, let the active frame act, or open a frame for a call. `Machine.Opens` does the same
for calls alone, which can also be made from outside. `Machine.Stops` and `Machine.Declines` list in
the same way how steps and calls fail. A step that fails has moved the active frame past the failing
instruction and at most taken operands from it (`step_error`).
-/

namespace ScopeMachine

namespace Frame

/-- A frame at the start of a function, with the given arguments and all other locals zero. -/
def entering (f : Function) (args : List Value) : Frame :=
  { function := f, locals := args ++ f.locals.map ValueType.zero }

theorem bindArgs_eq_ok_iff {f : Function} {args : List Value} {frame : Frame} :
    (ofFunction f).bindArgs args = .ok frame ↔
      args.length = f.params.length ∧ frame = entering f args := by
  have zeros (count : args.length = f.params.length) :
      (f.slots.map ValueType.zero).drop args.length = f.locals.map ValueType.zero := by
    rw [Function.slots, List.map_append, List.drop_left' (by rw [List.length_map, count])]
  unfold bindArgs entering
  constructor
  · intro bound
    split at bound
    · rename_i count
      cases bound
      exact ⟨count, by rw [← zeros count]; rfl⟩
    · cases bound
  · rintro ⟨count, rfl⟩
    exact (if_pos count).trans (by rw [← zeros count]; rfl)

theorem ofFunction_eq_entering {f : Function} (none : f.params = []) : ofFunction f = entering f [] := by
  unfold ofFunction entering Function.slots
  rw [none]
  rfl

theorem popN_eq_ok_iff {f g : Frame} {n : Nat} {args : List Value} :
    f.popN n = .ok (args, g) ↔ args.length = n ∧
      ∃ below, f.stack.topFirst = args.reverse ++ below ∧ g = f.withStack ⟨below⟩ := by
  unfold popN OperandStack.popN OperandStack.size
  constructor
  · intro popped
    split at popped
    · rename_i enough
      cases popped
      refine ⟨by rw [List.length_reverse, List.length_take, Nat.min_eq_left enough], _, ?_, rfl⟩
      rw [List.reverse_reverse, List.take_append_drop]
    · cases popped
  · rintro ⟨rfl, below, taken, rfl⟩
    have enough : args.length ≤ (args.reverse ++ below).length := by simp
    rw [taken, if_pos enough, List.take_left' args.length_reverse, List.drop_left' args.length_reverse,
      List.reverse_reverse]
    rfl

theorem popN_eq_error_iff {f : Frame} {n : Nat} {e : Error} :
    f.popN n = .error e ↔ f.stack.size < n ∧ e = .stackUnderflow := by
  unfold popN OperandStack.popN
  split
  · rename_i enough
    constructor
    · intro popped
      cases popped
    · rintro ⟨few, -⟩
      omega
  · rename_i few
    constructor
    · intro refused
      cases refused
      exact ⟨Nat.lt_of_not_le few, rfl⟩
    · rintro ⟨-, rfl⟩
      rfl

end Frame

namespace Machine

theorem function_eq_ok_iff {m : Machine} {index : UInt32} {f : Function} :
    m.function index = .ok f ↔ m.functions[index.toNat]? = some f := by
  unfold function
  cases m.functions[index.toNat]? <;> simp

/-- A call that an active frame makes. -/
theorem call_of_frames {m : Machine} {caller : Frame} {callers : List Frame} {index : UInt32}
    (frames : m.frames = caller :: callers) : call index m = match m.function index with
      | .error e => .error e m
      | .ok f =>
        if m.maxDepth ≤ m.frames.length then .error .callDepthExhausted m
        else
          match caller.popN f.params.length with
          | .error e => .error e m
          | .ok (args, caller) =>
            match (Frame.ofFunction f).bindArgs args with
            | .error e => .error e { m with frames := caller :: callers }
            | .ok frame => .ok () { m with frames := frame :: caller :: callers } := by
  obtain ⟨functions, globals, exports, open_, results, maxDepth⟩ := m
  cases frames
  rfl

/-- All that a call can do. -/
inductive Opens (index : UInt32) : Machine → Machine → Prop
  | first {m : Machine} {f : Function} (idle : m.frames = [])
      (known : m.functions[index.toNat]? = some f) (room : m.frames.length < m.maxDepth)
      (none : f.params = []) :
      Opens index m { m with frames := [.entering f []], results := [] }
  | nested {m : Machine} {f : Function} {caller : Frame} {callers : List Frame} {args below : List Value}
      (frames : m.frames = caller :: callers) (known : m.functions[index.toNat]? = some f)
      (room : m.frames.length < m.maxDepth) (count : args.length = f.params.length)
      (taken : caller.stack.topFirst = args.reverse ++ below) :
      Opens index m { m with frames := .entering f args :: caller.withStack ⟨below⟩ :: callers }

theorem Opens.busy {index : UInt32} {m m' : Machine} (opens : Opens index m m') : m'.frames ≠ [] := by
  cases opens <;> exact List.cons_ne_nil _ _

theorem call_eq_ok_iff {index : UInt32} {m m' : Machine} :
    call index m = .ok () m' ↔ Opens index m m' := by
  constructor
  · intro success
    unfold call at success
    split at success
    · cases success
    rename_i f known
    rw [function_eq_ok_iff] at known
    split at success
    · cases success
    rename_i full
    have room : m.frames.length < m.maxDepth := Nat.lt_of_not_le full
    split at success
    · rename_i idle
      split_ifs at success with none
      cases success
      have none : f.params = [] := List.isEmpty_iff.mp none
      rw [Frame.ofFunction_eq_entering none]
      exact .first idle known room none
    · rename_i caller callers frames
      split at success
      · cases success
      rename_i args rest popped
      obtain ⟨count, below, taken, rfl⟩ := Frame.popN_eq_ok_iff.mp popped
      rw [Frame.bindArgs_eq_ok_iff.mpr ⟨count, rfl⟩] at success
      cases success
      exact .nested frames known room count taken
  · intro opens
    cases opens with
    | @first f idle known room none =>
      simp only [call, function_eq_ok_iff.mpr known, Nat.not_le.mpr room, ↓reduceIte]
      simp only [idle, none, List.isEmpty_nil, ↓reduceIte, Frame.ofFunction_eq_entering none]
    | @nested f caller callers args below frames known room count taken =>
      have popped := Frame.popN_eq_ok_iff.mpr ⟨count, below, taken, rfl⟩
      simp only [call, function_eq_ok_iff.mpr known, Nat.not_le.mpr room, ↓reduceIte]
      simp only [frames, popped, Frame.bindArgs_eq_ok_iff.mpr ⟨count, rfl⟩]

/-- All ways in which a call is refused, with what it leaves. Without a caller the results of the last run are
dropped before the arguments are found missing. -/
inductive Declines (index : UInt32) : Machine → Error → Machine → Prop
  | unknownFunction {m : Machine} (unknown : m.functions.length ≤ index.toNat) :
      Declines index m (.unknownFunction index) m
  | callDepthExhausted {m : Machine} (known : index.toNat < m.functions.length)
      (full : m.maxDepth ≤ m.frames.length) : Declines index m .callDepthExhausted m
  | noCaller {m : Machine} {f : Function} (idle : m.frames = []) (known : m.functions[index.toNat]? = some f)
      (room : m.frames.length < m.maxDepth) (wants : f.params ≠ []) :
      Declines index m .stackUnderflow { m with results := [] }
  | fewArguments {m : Machine} {f : Function} {caller : Frame} {callers : List Frame}
      (frames : m.frames = caller :: callers) (known : m.functions[index.toNat]? = some f)
      (room : m.frames.length < m.maxDepth) (few : caller.stack.size < f.params.length) :
      Declines index m .stackUnderflow m

/-- The list of refusals is complete and each of them is possible. -/
theorem call_eq_error_iff {index : UInt32} {m m' : Machine} {e : Error} :
    call index m = .error e m' ↔ Declines index m e m' := by
  constructor
  · intro refused
    rcases Nat.lt_or_ge index.toNat m.functions.length with bound | unknown
    · have known := List.getElem?_eq_getElem bound
      simp only [call, function_eq_ok_iff.mpr known] at refused
      split at refused
      · rename_i full
        cases refused
        exact .callDepthExhausted bound full
      rename_i vacant
      have room : m.frames.length < m.maxDepth := Nat.lt_of_not_le vacant
      split at refused
      · rename_i idle
        split_ifs at refused with none
        cases refused
        exact .noCaller idle known room (mt List.isEmpty_iff.mpr none)
      · rename_i caller callers frames
        split at refused
        · rename_i popped
          cases refused
          obtain ⟨few, rfl⟩ := Frame.popN_eq_error_iff.mp popped
          exact .fewArguments frames known room few
        · rename_i popped
          obtain ⟨count, -⟩ := Frame.popN_eq_ok_iff.mp popped
          rw [Frame.bindArgs_eq_ok_iff.mpr ⟨count, rfl⟩] at refused
          cases refused
    · rw [call, function, List.getElem?_eq_none unknown] at refused
      cases refused
      exact .unknownFunction unknown
  · intro declines
    cases declines with
    | unknownFunction unknown => rw [call, function, List.getElem?_eq_none unknown]
    | callDepthExhausted bound full =>
      rw [call, function_eq_ok_iff.mpr (List.getElem?_eq_getElem bound)]
      exact if_pos full
    | @noCaller f idle known room wants =>
      simp only [call, function_eq_ok_iff.mpr known, Nat.not_le.mpr room, ↓reduceIte]
      simp only [idle, List.isEmpty_iff, wants, ↓reduceIte]
    | fewArguments frames known room few =>
      simp only [call, function_eq_ok_iff.mpr known, Nat.not_le.mpr room, ↓reduceIte]
      simp only [frames, Frame.popN_eq_error_iff.mpr ⟨few, rfl⟩]

/-- A call that an active frame makes changes nothing if it is refused. -/
theorem Declines.eq_of_frames {index : UInt32} {m m' : Machine} {e : Error} (declines : Declines index m e m')
    (busy : m.frames ≠ []) : m' = m := by
  cases declines with
  | unknownFunction | callDepthExhausted | fewArguments => rfl
  | noCaller idle => exact (busy idle).elim

/-- A call that fails changes nothing, except that it may drop the results of the last run. -/
theorem call_error {index : UInt32} {m m' : Machine} {e : Error}
    (failed : call index m = .error e m') :
    m' = m ∨ m.frames = [] ∧ m' = { m with results := [] } := by
  cases call_eq_error_iff.mp failed with
  | unknownFunction | callDepthExhausted | fewArguments => exact .inl rfl
  | noCaller idle => exact .inr ⟨idle, rfl⟩

theorem start_eq_ok_iff {index : UInt32} {args : List Value} {m m' : Machine} :
    start index args m = .ok () m' ↔ m.frames = [] ∧ ∃ f, m.functions[index.toNat]? = some f ∧
      args.length = f.params.length ∧ m' = { m with frames := [.entering f args], results := [] } := by
  constructor
  · intro success
    unfold start at success
    split_ifs at success with idle
    split at success
    · rename_i frame bound
      cases success
      cases known : m.function index with
      | error e => rw [known] at bound; cases bound
      | ok f =>
        rw [known] at bound
        obtain ⟨count, rfl⟩ := Frame.bindArgs_eq_ok_iff.mp bound
        exact ⟨List.isEmpty_iff.mp idle, f, function_eq_ok_iff.mp known, count, rfl⟩
    · cases success
  · rintro ⟨idle, f, known, count, rfl⟩
    have bound : (m.function index >>= fun f => (Frame.ofFunction f).bindArgs args) =
        .ok (.entering f args) := by
      rw [function_eq_ok_iff.mpr known]
      exact Frame.bindArgs_eq_ok_iff.mpr ⟨count, rfl⟩
    simp only [start, Machine.idle, idle, List.isEmpty_nil, ↓reduceIte, bound]

theorem idle_iff {m : Machine} : m.idle = true ↔ m.frames = [] := List.isEmpty_iff

/-- A function that is known is started if there are as many arguments as parameters. -/
theorem start_of_known {index : UInt32} {m : Machine} {f : Function} (idle : m.frames = [])
    (known : m.functions[index.toNat]? = some f) (args : List Value) : start index args m =
      if args.length = f.params.length then .ok () { m with frames := [.entering f args], results := [] }
      else .error .argumentCount m := by
  split
  · rename_i count
    exact start_eq_ok_iff.mpr ⟨idle, f, known, count, rfl⟩
  · rename_i count
    have bound : (Frame.ofFunction f).bindArgs args = .error .argumentCount := if_neg count
    rw [start, if_pos (idle_iff.mpr idle), function_eq_ok_iff.mpr known]
    simp only [bind, Except.bind, bound]

/-- The causes for which a start is refused. -/
inductive Refuses (index : UInt32) (args : List Value) (m : Machine) : Error → Prop
  | busy (busy : m.frames ≠ []) : Refuses index args m .busy
  | unknownFunction (idle : m.frames = []) (unknown : m.functions.length ≤ index.toNat) :
      Refuses index args m (.unknownFunction index)
  | argumentCount {f : Function} (idle : m.frames = []) (known : m.functions[index.toNat]? = some f)
      (count : args.length ≠ f.params.length) : Refuses index args m .argumentCount

theorem start_of_refuses {index : UInt32} {args : List Value} {m : Machine} {e : Error}
    (refuses : m.Refuses index args e) : start index args m = .error e m := by
  cases refuses with
  | busy busy => rw [start, if_neg (mt idle_iff.mp busy)]
  | unknownFunction idle unknown =>
    have function : m.function index = .error (.unknownFunction index) := by
      rw [function, List.getElem?_eq_none unknown]
    rw [start, if_pos (idle_iff.mpr idle), function]
    rfl
  | argumentCount idle known count => rw [start_of_known idle known, if_neg count]

/-- A start is refused for one of the causes, and then it changes nothing. -/
theorem start_eq_error_iff {index : UInt32} {args : List Value} {m m' : Machine} {e : Error} :
    start index args m = .error e m' ↔ m.Refuses index args e ∧ m' = m := by
  constructor
  · intro refused
    have refuses : ∃ e, m.Refuses index args e := by
      by_cases idle : m.frames = []
      · rcases Nat.lt_or_ge index.toNat m.functions.length with known | unknown
        · have found := List.getElem?_eq_getElem known
          by_cases count : args.length = m.functions[index.toNat].params.length
          · rw [start_eq_ok_iff.mpr ⟨idle, _, found, count, rfl⟩] at refused
            cases refused
          · exact ⟨_, .argumentCount idle found count⟩
        · exact ⟨_, .unknownFunction idle unknown⟩
      · exact ⟨_, .busy idle⟩
    obtain ⟨e', refuses⟩ := refuses
    rw [start_of_refuses refuses] at refused
    cases refused
    exact ⟨refuses, rfl⟩
  · rintro ⟨refuses, rfl⟩
    exact start_of_refuses refuses

/-- A start that is refused changes nothing. -/
theorem start_error {index : UInt32} {args : List Value} {m m' : Machine} {e : Error}
    (failed : start index args m = .error e m') : m' = m :=
  (start_eq_error_iff.mp failed).2

theorem step_of_idle {m : Machine} (idle : m.frames = []) : step m = .ok () m := by
  simp only [step, idle]

theorem step_of_done {m : Machine} {f : Frame} {callers : List Frame} (frames : m.frames = f :: callers)
    (done : f.instruction? = none) : step m = .ok () m.retire := by
  simp only [step, frames, done]

theorem step_of_call {m : Machine} {f : Frame} {callers : List Frame} {index : UInt32}
    (frames : m.frames = f :: callers) (next : f.instruction? = some (.call index)) :
    step m = match call index { m with frames := f.goto (f.pc + 1) :: callers } with
      | .ok _ m => .ok () m.retireFinished
      | .error e m => .error e m := by
  simp only [step, frames, next]
  rfl

theorem step_of_effect {m : Machine} {f : Frame} {callers : List Frame} {i : Instruction}
    (frames : m.frames = f :: callers) (next : f.instruction? = some i)
    (notCall : ∀ index, i ≠ .call index) :
    step m = match i.effect f.pc { frame := f.goto (f.pc + 1), globals := m.globals } with
      | .ok _ w => .ok () (retireFinished { m with frames := w.frame :: callers, globals := w.globals })
      | .error e w => .error e { m with frames := w.frame :: callers, globals := w.globals } := by
  have acts : execute f.pc i = perform (i.effect f.pc) := by
    cases i with
    | call index => exact (notCall index rfl).elim
    | _ => rfl
  simp only [step, frames, next, acts, perform]
  cases i.effect f.pc { frame := f.goto (f.pc + 1), globals := m.globals } <;> rfl

/-- A frame at the end of its body is retired. -/
theorem retireFinished_of_end {m : Machine} {f : Frame} {callers : List Frame}
    (frames : m.frames = f :: callers) (finished : f.pc = f.function.size) : m.retireFinished = m.retire := by
  have finished : f.finished = true := beq_iff_eq.mpr finished
  simp only [retireFinished, frames, finished, ↓reduceIte]

theorem retireFinished_of_not_end {m : Machine} {f : Frame} {callers : List Frame}
    (frames : m.frames = f :: callers) (unfinished : f.pc ≠ f.function.size) : m.retireFinished = m := by
  have unfinished : f.finished = false := beq_false_of_ne unfinished
  simp only [retireFinished, frames, unfinished, Bool.false_eq_true, ↓reduceIte]

/-- A frame that has an instruction left is not retired. -/
theorem retireFinished_of_next {m : Machine} {f : Frame} {callers : List Frame} {i : Instruction}
    (frames : m.frames = f :: callers) (next : f.instruction? = some i) : m.retireFinished = m :=
  retireFinished_of_not_end frames (Nat.ne_of_lt (Array.getElem?_eq_some_iff.mp next).1)

/-- All that a successful step can do. -/
inductive Advances : Machine → Machine → Prop
  | rests {m : Machine} (idle : m.frames = []) : Advances m m
  | retires {m : Machine} {f : Frame} {callers : List Frame} (frames : m.frames = f :: callers)
      (done : f.instruction? = none) : Advances m m.retire
  | acts {m : Machine} {f : Frame} {callers : List Frame} {i : Instruction} {w : Workspace}
      (frames : m.frames = f :: callers) (next : f.instruction? = some i)
      (moves : i.Moves f.pc { frame := f.goto (f.pc + 1), globals := m.globals } w) :
      Advances m (retireFinished { m with frames := w.frame :: callers, globals := w.globals })
  | calls {m called : Machine} {f : Frame} {callers : List Frame} {index : UInt32}
      (frames : m.frames = f :: callers) (next : f.instruction? = some (.call index))
      (opens : Opens index { m with frames := f.goto (f.pc + 1) :: callers } called) :
      Advances m called.retireFinished

theorem step_eq_ok_iff {m m' : Machine} : step m = .ok () m' ↔ Advances m m' := by
  constructor
  · intro success
    cases frames : m.frames with
    | nil =>
      rw [step_of_idle frames] at success
      cases success
      exact .rests frames
    | cons f callers =>
      cases next : f.instruction? with
      | none =>
        rw [step_of_done frames next] at success
        cases success
        exact .retires frames next
      | some i =>
        by_cases isCall : ∃ index, i = .call index
        · obtain ⟨index, rfl⟩ := isCall
          rw [step_of_call frames next] at success
          split at success
          · rename_i called opened
            cases success
            exact .calls frames next (call_eq_ok_iff.mp opened)
          · cases success
        · have notCall : ∀ index, i ≠ .call index := fun index same => isCall ⟨index, same⟩
          rw [step_of_effect frames next notCall] at success
          split at success
          · rename_i w effect
            cases success
            exact .acts frames next ((Instruction.effect_eq_ok_iff notCall).mp effect)
          · cases success
  · intro advances
    cases advances with
    | rests idle => exact step_of_idle idle
    | retires frames done => exact step_of_done frames done
    | @acts f callers i w frames next moves =>
      have notCall : ∀ index, i ≠ .call index := by
        rintro index rfl
        cases moves with
        | plain isPlain => cases isPlain
      rw [step_of_effect frames next notCall, (Instruction.effect_eq_ok_iff notCall).mpr moves]
    | calls frames next opens => rw [step_of_call frames next, call_eq_ok_iff.mpr opens]

/-- All that a step that fails can do: it has moved the active frame past the instruction that fails. -/
inductive Stops : Machine → Error → Machine → Prop
  | acts {m : Machine} {f : Frame} {callers : List Frame} {i : Instruction} {e : Error} {w : Workspace}
      (frames : m.frames = f :: callers) (next : f.instruction? = some i)
      (fails : i.Fails { frame := f.goto (f.pc + 1), globals := m.globals } e w) :
      Stops m e { m with frames := w.frame :: callers, globals := w.globals }
  | calls {m m' : Machine} {f : Frame} {callers : List Frame} {index : UInt32} {e : Error}
      (frames : m.frames = f :: callers) (next : f.instruction? = some (.call index))
      (declines : Declines index { m with frames := f.goto (f.pc + 1) :: callers } e m') : Stops m e m'

theorem step_eq_error_iff {m m' : Machine} {e : Error} : step m = .error e m' ↔ Stops m e m' := by
  constructor
  · intro failed
    cases frames : m.frames with
    | nil =>
      rw [step_of_idle frames] at failed
      cases failed
    | cons f callers =>
      cases next : f.instruction? with
      | none =>
        rw [step_of_done frames next] at failed
        cases failed
      | some i =>
        by_cases isCall : ∃ index, i = .call index
        · obtain ⟨index, rfl⟩ := isCall
          rw [step_of_call frames next] at failed
          split at failed
          · cases failed
          · rename_i refused
            cases failed
            exact .calls frames next (call_eq_error_iff.mp refused)
        · have notCall : ∀ index, i ≠ .call index := fun index same => isCall ⟨index, same⟩
          rw [step_of_effect frames next notCall] at failed
          split at failed
          · cases failed
          · rename_i effect
            cases failed
            exact .acts frames next (Instruction.effect_eq_error_iff.mp effect)
  · intro stops
    cases stops with
    | @acts f callers i _ w frames next fails =>
      have notCall : ∀ index, i ≠ .call index := by
        rintro index rfl
        cases fails with
        | unknownLocal names | unknownGlobal names => cases names
        | noOperand needs => cases needs
      rw [step_of_effect frames next notCall, Instruction.effect_eq_error_iff.mpr fails]
    | calls frames next declines => rw [step_of_call frames next, call_eq_error_iff.mpr declines]

/-- A step that fails has moved the active frame past the instruction and at most taken operands. -/
theorem step_error {m m' : Machine} {e : Error} (failed : step m = .error e m') :
    ∃ f callers i stack, m.frames = f :: callers ∧ f.instruction? = some i ∧
      m' = { m with frames := (f.goto (f.pc + 1)).withStack stack :: callers } := by
  cases step_eq_error_iff.mp failed with
  | @acts f callers i _ w frames next fails =>
    obtain ⟨stack, rfl⟩ := fails.eq_withStack
    exact ⟨f, callers, i, stack, frames, next, rfl⟩
  | @calls _ f callers index _ frames next declines =>
    obtain rfl := declines.eq_of_frames (List.cons_ne_nil _ _)
    exact ⟨f, callers, _, (f.goto (f.pc + 1)).stack, frames, next, by rw [Frame.withStack_stack]⟩

/-- What running does not change. -/
structure SameSetup (m m' : Machine) : Prop where
  functions : m'.functions = m.functions
  exports : m'.exports = m.exports
  maxDepth : m'.maxDepth = m.maxDepth

namespace SameSetup

variable {m m' m'' : Machine}

theorem refl (m : Machine) : m.SameSetup m := ⟨rfl, rfl, rfl⟩

theorem trans (left : m.SameSetup m') (right : m'.SameSetup m'') : m.SameSetup m'' :=
  ⟨right.functions.trans left.functions, right.exports.trans left.exports,
    right.maxDepth.trans left.maxDepth⟩

theorem retire (m : Machine) : m.SameSetup m.retire := by
  unfold Machine.retire
  split <;> exact ⟨rfl, rfl, rfl⟩

theorem retireFinished (m : Machine) : m.SameSetup m.retireFinished := by
  unfold Machine.retireFinished
  split
  · exact refl m
  · split_ifs
    · exact retire m
    · exact refl m

theorem starts {index : UInt32} {args : List Value} (starts : start index args m = .ok () m') :
    m.SameSetup m' := by
  obtain ⟨-, f, -, -, rfl⟩ := start_eq_ok_iff.mp starts
  exact ⟨rfl, rfl, rfl⟩

theorem opens {index : UInt32} (opens : Opens index m m') : m.SameSetup m' := by
  cases opens <;> exact ⟨rfl, rfl, rfl⟩

theorem advances (advances : Advances m m') : m.SameSetup m' := by
  cases advances with
  | rests => exact refl m
  | retires => exact retire m
  | acts =>
    refine trans ?_ (retireFinished _)
    exact ⟨rfl, rfl, rfl⟩
  | calls _ _ opened =>
    have same := opens opened
    exact trans ⟨same.functions, same.exports, same.maxDepth⟩ (retireFinished _)

theorem of_step_error {e : Error} (failed : step m = .error e m') : m.SameSetup m' := by
  obtain ⟨f, callers, i, stack, frames, next, rfl⟩ := step_error failed
  exact ⟨rfl, rfl, rfl⟩

end SameSetup

end Machine

end ScopeMachine
