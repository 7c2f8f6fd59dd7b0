import ScopeMachine.Proofs.Growth
import ScopeMachine.Proofs.Lockstep

/-! # What an invocation leaves behind

An invocation that is refused at its start leaves the machine alone. One that returns leaves it idle and as it
was set up before (`Machine.Restored`), except for the values of its globals. One that traps leaves the frames
of its run on the machine, which refuses to start anything else (`History.busy`) until it is stepped on or
reset, and a reset restores it. Nothing else than its functions, its globals and its limit on frames tells an
idle machine what to answer, so all that an invocation hands on to the next one are the globals.
-/

namespace ScopeMachine

namespace Instruction

theorem Moves.length_globals {pc : Nat} {i : Instruction} {w w' : Workspace} (moves : i.Moves pc w w') :
    w'.globals.length = w.globals.length := by
  cases moves with
  | plain isPlain computed => exact (compute_lengths computed).2
  | block | loop | holds | fails | otherwise | close | br | taken | passed => rfl

end Instruction

namespace Machine

variable {m m' : Machine} {index : UInt32} {args : List Value} {e : Error}

/-- An invocation that is refused at its start changes nothing. -/
theorem invoke?_of_refuses (refuses : m.Refuses index args e) (fuel : Nat) :
    invoke? fuel index args m = some (.error e m) := by
  simp only [invoke?, start_of_refuses refuses]

theorem globals_retire (m : Machine) : m.retire.globals = m.globals := by
  unfold retire
  split <;> rfl

theorem globals_retireFinished (m : Machine) : m.retireFinished.globals = m.globals := by
  unfold retireFinished
  split
  · rfl
  · split
    · exact globals_retire m
    · rfl

/-- Running writes globals, but it neither adds nor removes any. -/
theorem Advances.length_globals (advances : Advances m m') : m'.globals.length = m.globals.length := by
  cases advances with
  | rests => rfl
  | retires => rw [globals_retire]
  | acts frames next moves =>
    rw [globals_retireFinished]
    exact moves.length_globals
  | calls frames next opens =>
    rw [globals_retireFinished]
    cases opens <;> rfl

theorem Steps.length_globals {n : Nat} (steps : Steps n m m') : m'.globals.length = m.globals.length :=
  steps.preserves (P := fun later => later.globals.length = m.globals.length)
    (fun _ _ advances same => advances.length_globals.trans same) rfl

theorem Traps.length_globals {n : Nat} (traps : Traps n m e m') : m'.globals.length = m.globals.length := by
  obtain ⟨last, steps, failed⟩ := traps
  obtain ⟨f, callers, i, stack, -, -, rfl⟩ := step_error failed
  exact steps.length_globals

/-- An idle machine without results, which differs from another idle one in nothing else than the values of its
globals. -/
structure Restored (m left : Machine) : Prop where
  setup : m.SameSetup left
  before : m.frames = []
  idle : left.frames = []
  results : left.results = []
  globals : left.globals.length = m.globals.length

end Machine

/-- Whether an operation takes a run further that is under way, or abandons it. -/
def Operation.proceeds : Operation → Bool
  | step | run | runSteps _ | reset => true
  | _ => false

open Machine

theorem Operation.busy {op : Operation} {fuel : Nat} {trapped : Bool} {m m' : Machine}
    (performed : op.perform? fuel m = some (trapped, m')) (rests : op.proceeds = false) (busy : m.frames ≠ []) :
    m'.frames ≠ [] := by
  have refused (index : UInt32) (args : List Value) : m.start index args = .error .busy m :=
    start_of_refuses (.busy busy)
  cases op with
  | step | run | runSteps | reset => cases rests
  | addFunction | addGlobal | withMaxDepth | takeResults =>
    cases performed
    exact busy
  | addExport name index =>
    cases performed
    unfold Machine.addExport
    split_ifs <;> exact busy
  | start index args =>
    rw [perform?, refused] at performed
    cases performed
    exact busy
  | invoke index args =>
    simp only [perform?, refused, failed, ↓reduceIte] at performed
    cases performed
    exact busy
  | call index =>
    cases called : m.call index with
    | ok _ m'' =>
      rw [perform?, called] at performed
      cases performed
      exact (call_eq_ok_iff.mp called).busy
    | error e m'' =>
      rw [perform?, called] at performed
      cases performed
      rcases call_error called with rfl | ⟨idle, -⟩
      · exact busy
      · exact (busy idle).elim

/-- A machine with a run under way stays so until an operation takes the run further or abandons it. -/
theorem History.busy {ops : List Operation} {m m' : Machine} (history : History ops m m')
    (rest : ∀ op ∈ ops, op.proceeds = false) (busy : m.frames ≠ []) : m'.frames ≠ [] := by
  induction history with
  | nil => exact busy
  | cons fuel head _ ih =>
    obtain ⟨first, later⟩ := List.forall_mem_cons.mp rest
    exact ih later (Operation.busy head first busy)

namespace Machine

/-- Machines that differ at most in the names under which they export functions. -/
structure Alike (m m' : Machine) : Prop where
  functions : m'.functions = m.functions
  globals : m'.globals = m.globals
  frames : m'.frames = m.frames
  results : m'.results = m.results
  maxDepth : m'.maxDepth = m.maxDepth

variable {m m' : Machine}

theorem Alike.carrying (alike : Alike m m') : m'.carrying [] m = m' := by
  rw [Machine.carrying, List.append_nil, ← alike.globals, ← alike.frames, ← alike.results]

theorem Alike.not_lacks {e : Error} (alike : Alike m m') : ¬ Lacks m' [] m e := by
  rintro (⟨more, -⟩ | ⟨more, -⟩ | more)
  · exact more alike.functions.symm
  · exact more rfl
  · exact more alike.maxDepth.symm

/-- Exports play no part in a run. -/
theorem lockstep_alike : Lockstep Alike where
  idle alike := by rw [alike.frames]
  results alike := alike.results
  globals alike := alike.globals
  step := by
    intro m m' alike _
    have covers : m'.Covers m := ⟨alike.functions ▸ List.prefix_refl _, Nat.le_of_eq alike.maxDepth.symm⟩
    have repeats := step_carrying [] covers
    rw [alike.carrying] at repeats
    generalize other : Machine.step m' = result at repeats
    cases head : Machine.step m with
    | ok _ next =>
      rw [head] at repeats
      cases repeats
      have same := SameSetup.advances (step_eq_ok_iff.mp head)
      exact .ok ⟨alike.functions.trans same.functions.symm, List.append_nil _, rfl, rfl,
        alike.maxDepth.trans same.maxDepth.symm⟩
    | error e next =>
      rw [head] at repeats
      cases repeats with
      | error => exact .error e (List.append_nil _)
      | lacks wanting => exact (alike.not_lacks wanting).elim

/-- Idle machines that know the same functions and have the same globals and the same limit on frames start a
function alike, or refuse it for the same cause. -/
theorem paired_start {index : UInt32} {args : List Value} (idle : m.frames = []) (idle' : m'.frames = [])
    (functions : m'.functions = m.functions) (globals : m'.globals = m.globals)
    (maxDepth : m'.maxDepth = m.maxDepth) :
    Paired Alike (start index args m) (start index args m') := by
  cases known : m.functions[index.toNat]? with
  | none =>
    have unknown : m.functions.length ≤ index.toNat := List.getElem?_eq_none_iff.mp known
    rw [start_of_refuses (.unknownFunction idle unknown),
      start_of_refuses (.unknownFunction idle' (functions ▸ unknown))]
    exact .error _ globals
  | some f =>
    rw [start_of_known idle known, start_of_known idle' (functions ▸ known)]
    split
    · exact .ok ⟨functions, globals, rfl, rfl, maxDepth⟩
    · exact .error _ globals

/-- A reset after a run that has been started restores the machine from before. -/
theorem restored_reset {index : UInt32} {args : List Value} {started left : Machine}
    (starts : start index args m = .ok () started) (setup : started.SameSetup left)
    (globals : left.globals.length = started.globals.length) : m.Restored left.reset := by
  have whole := (SameSetup.starts starts).trans setup
  obtain ⟨idle, f, -, -, rfl⟩ := start_eq_ok_iff.mp starts
  exact ⟨⟨whole.functions, whole.exports, whole.maxDepth⟩, idle, rfl, rfl, globals⟩

/-- An invocation depends on nothing that earlier ones have left but the globals. If it is refused at its start,
it changes nothing. If it returns, the machine is idle again and has no results, and only the values of its
globals may be others. If it traps, the machine refuses to start anything until it is stepped on or reset, and
after a reset again only the values of its globals may be others. And it returns the same values, or fails with
the same error, and leaves the same globals, after the same number of steps or never, on every other idle
machine with the same functions, globals and limit on frames, whatever that exports and whatever results it
holds. -/
theorem invoke?_independent_of_history (m : Machine) (index : UInt32) (args : List Value) :
    (∀ e left, start index args m = .error e left →
      m.Refuses index args e ∧ left = m ∧ ∀ fuel, invoke? fuel index args m = some (.error e m)) ∧
    (∀ fuel values left, invoke? fuel index args m = some (.ok values left) → m.Restored left) ∧
    (∀ fuel e started left, start index args m = .ok () started →
      invoke? fuel index args m = some (.error e left) → left.frames ≠ [] ∧
      (∀ ops later, History ops left later → (∀ op ∈ ops, op.proceeds = false) → ∀ index args,
        start index args later = .error .busy later ∧
          ∀ fuel, invoke? fuel index args later = some (.error .busy later)) ∧
      m.Restored left.reset) ∧
    (∀ other : Machine, m.frames = [] → other.frames = [] → other.functions = m.functions →
      other.globals = m.globals → other.maxDepth = m.maxDepth → ∀ fuel,
        (invoke? fuel index args m).map Answer.ofResult = (invoke? fuel index args other).map Answer.ofResult) := by
  refine ⟨?_, ?_, ?_, ?_⟩
  · intro e left refused
    obtain ⟨refuses, rfl⟩ := start_eq_error_iff.mp refused
    exact ⟨refuses, rfl, invoke?_of_refuses refuses⟩
  · intro fuel values left ended
    cases invoked_of_invoke? ended with
    | @returned _ finished _ starts finishes =>
      have reset : { finished with results := [] } = finished.reset := by rw [Machine.reset, ← finishes.2]
      rw [reset]
      exact restored_reset starts finishes.1.sameSetup finishes.1.length_globals
  · intro fuel e started left starts ended
    cases invoked_of_invoke? ended with
    | refused refused =>
      rw [starts] at refused
      cases refused
    | trapped starts traps =>
      refine ⟨traps.busy, ?_, restored_reset starts traps.sameSetup traps.length_globals⟩
      intro ops later history rest index args
      have busy := history.busy rest traps.busy
      exact ⟨start_of_refuses (.busy busy), invoke?_of_refuses (.busy busy)⟩
  · intro other idle idle' functions globals maxDepth fuel
    exact lockstep_alike.map_invoke? (paired_start idle idle' functions globals maxDepth) fuel

/-- A machine whose function counts its calls in a global and divides that by its argument. Somebody has not
taken the results of an earlier run. -/
def dividing : Machine :=
  { functions := [{ params := [.i32], results := [.i32], body := #[.globalGet 0, .const 1, .binary .add, .globalSet 0,
      .globalGet 0, .localGet 0, .binary .div] }]
    globals := [11]
    exports := [("divide", 0)]
    results := [3] }

theorem invoke?_independent_of_history_dividing :
    ∃ started left, start 0 [0] dividing = .ok () started ∧
      invoke? 7 0 [0] dividing = some (.error .divisionByZero left) ∧ start 0 [4] left = .error .busy left ∧
      dividing.Restored left.reset ∧
      (invoke? 7 0 [4] left.reset).map Answer.ofResult = some (.returns [3] [13]) := by
  have answer : (invoke? 7 0 [0] dividing).map Answer.ofResult = some (.traps .divisionByZero [12]) := by
    decide +kernel
  have divided : (invoke? 7 0 [4] { functions := dividing.functions, globals := [12] }).map Answer.ofResult =
      some (.returns [3] [13]) := by decide +kernel
  have started : ∃ started, start 0 [0] dividing = .ok () started := ⟨_, rfl⟩
  obtain ⟨started, starts⟩ := started
  obtain ⟨result, ended, traps⟩ := Option.map_eq_some_iff.mp answer
  cases result with
  | ok values left => cases traps
  | error e left =>
    obtain ⟨rfl, globals⟩ := Answer.traps.inj traps
    obtain ⟨-, -, trapped, -⟩ := invoke?_independent_of_history dividing 0 [0]
    obtain ⟨-, busy, restored⟩ := trapped 7 _ started left starts ended
    obtain ⟨-, -, -, same⟩ := invoke?_independent_of_history left.reset 0 [4]
    have fresh := same { functions := dividing.functions, globals := [12] } rfl rfl restored.setup.functions.symm
      globals.symm restored.setup.maxDepth.symm 7
    exact ⟨started, left, starts, ended, (busy [] left (.nil left) nofun 0 [4]).1, restored, fresh.trans divided⟩

end Machine

end ScopeMachine
