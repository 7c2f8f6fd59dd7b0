import ScopeMachine.Proofs.Operation
import ScopeMachine.Proofs.Portions

/-! # What is seen of a run

A run that ends is seen from outside by what it returns or by the cause of its trap, and by the globals
that it leaves. `Machine.Ends` gives a run that `Answer`, of which there is at most one, and none if the
run goes on forever. An invocation has the answer of the run that it starts
(`Machine.exists_invoke?_iff`), and all that it leaves to the next one besides is the machine as it was
before.
-/

namespace ScopeMachine

/-- How a whole run ends. -/
inductive Answer where
  | returns (values globals : List Value)
  | traps (e : Error) (globals : List Value)
  deriving DecidableEq, Repr

/-- The globals that a run leaves. -/
def Answer.globals : Answer → List Value
  | returns _ globals | traps _ globals => globals

/-- What is seen of an invocation that has ended. -/
def Answer.ofResult : EStateM.Result Error Machine (List Value) → Answer
  | .ok values m => .returns values m.globals
  | .error e m => .traps e m.globals

namespace Machine

variable {m : Machine} {answer other : Answer}

/-- A run ends with an answer. -/
def Ends (m : Machine) : Answer → Prop
  | .returns values globals => ∃ k m', Finishes k m m' ∧ m'.results = values ∧ m'.globals = globals
  | .traps e globals => ∃ k m', Traps k m e m' ∧ m'.globals = globals

namespace Ends

theorem unique (left : m.Ends answer) (right : m.Ends other) : other = answer := by
  cases answer with
  | returns values globals =>
    obtain ⟨k, m', finishes, rfl, rfl⟩ := left
    cases other with
    | returns values' globals' =>
      obtain ⟨n, m'', finishes', rfl, rfl⟩ := right
      obtain ⟨-, rfl⟩ := finishes.deterministic finishes'
      rfl
    | traps e globals' =>
      obtain ⟨n, m'', traps, -⟩ := right
      exact (traps.not_finishes finishes).elim
  | traps e globals =>
    obtain ⟨k, m', traps, rfl⟩ := left
    cases other with
    | returns values' globals' =>
      obtain ⟨n, m'', finishes, -⟩ := right
      exact (traps.not_finishes finishes).elim
    | traps e' globals' =>
      obtain ⟨n, m'', traps', rfl⟩ := right
      obtain ⟨-, rfl, rfl⟩ := traps.deterministic traps'
      rfl

/-- No walk is longer than a run that ends. -/
theorem bounded (ends : m.Ends answer) : ∃ bound, ∀ k m', Steps k m m' → k ≤ bound := by
  cases answer with
  | returns values globals =>
    obtain ⟨n, m', finishes, -⟩ := ends
    exact ⟨n, fun k m'' steps => finishes.le steps⟩
  | traps e globals =>
    obtain ⟨n, m', traps, -⟩ := ends
    exact ⟨n, fun k m'' steps => traps.le steps⟩

theorem not_runsForever (ends : m.Ends answer) : ¬ RunsForever m := by
  intro endless
  cases answer with
  | returns values globals =>
    obtain ⟨k, m', finishes, -⟩ := ends
    exact endless.not_finishes finishes
  | traps e globals =>
    obtain ⟨k, m', traps, -⟩ := ends
    exact endless.not_traps traps

end Ends

theorem ends_or_runsForever (m : Machine) : (∃ answer, m.Ends answer) ∨ RunsForever m := by
  rcases finishes_or_traps_or_runsForever m with ⟨k, m', finishes⟩ | ⟨k, e, m', traps⟩ | endless
  · exact .inl ⟨.returns m'.results m'.globals, k, m', finishes, rfl, rfl⟩
  · exact .inl ⟨.traps e m'.globals, k, m', traps, rfl⟩
  · exact .inr endless

/-- The machine at the start of a function. -/
def starting (m : Machine) (f : Function) (args : List Value) : Machine :=
  { m with frames := [.entering f args], results := [] }

/-- Invokes functions one after the other and tells how each invocation ends. The machine is reset in
between, which makes it idle again if it has trapped. -/
def invokeAll? (fuel : Nat) : List (UInt32 × List Value) → Machine → Option (List Answer)
  | [], _ => some []
  | (index, args) :: calls, m =>
    match invoke? fuel index args m with
    | none => none
    | some ended => (invokeAll? fuel calls (Operation.left ended).reset).map (.ofResult ended :: ·)

section
variable {fuel more : Nat} {index : UInt32} {args : List Value}

/-- More fuel does not change how a run ends. -/
theorem run?_mono {result : EStateM.Result Error Machine Unit} (enough : fuel ≤ more)
    (ended : run? fuel m = some result) : run? more m = some result := by
  obtain ⟨n, bound, ends⟩ := run?_eq_some_iff.mp ended
  exact run?_eq_some_iff.mpr ⟨n, Nat.le_trans bound enough, ends⟩

theorem invoke?_mono {result : EStateM.Result Error Machine (List Value)} (enough : fuel ≤ more)
    (ended : invoke? fuel index args m = some result) : invoke? more index args m = some result := by
  unfold invoke? at ended ⊢
  cases started : start index args m with
  | error e refused =>
    rw [started] at ended
    exact ended
  | ok _ m' =>
    rw [started] at ended
    cases running : run? fuel m' with
    | none => simp only [running, reduceCtorEq] at ended
    | some outcome =>
      simp only [running] at ended
      simp only [run?_mono enough running]
      exact ended

theorem invokeAll?_mono {calls : List (UInt32 × List Value)} {answers : List Answer} (enough : fuel ≤ more)
    (ended : invokeAll? fuel calls m = some answers) : invokeAll? more calls m = some answers := by
  induction calls generalizing m answers with
  | nil => exact ended
  | cons call calls ih =>
    obtain ⟨index, args⟩ := call
    unfold invokeAll? at ended ⊢
    cases first : invoke? fuel index args m with
    | none => simp only [first, reduceCtorEq] at ended
    | some result =>
      simp only [first, Option.map_eq_some_iff] at ended
      obtain ⟨rest, later, rfl⟩ := ended
      simp only [invoke?_mono enough first, ih later, Option.map_some]

/-- With enough fuel an invocation tells how the run ends that it has started. -/
theorem exists_invoke?_iff {started : Machine} (starts : start index args m = .ok () started) :
    (∃ fuel, (invoke? fuel index args m).map Answer.ofResult = some answer) ↔ started.Ends answer := by
  have told {fuel : Nat} {answer : Answer} (ended : (invoke? fuel index args m).map Answer.ofResult = some answer) :
      started.Ends answer := by
    obtain ⟨result, invoked, rfl⟩ := Option.map_eq_some_iff.mp ended
    cases invoked_of_invoke? invoked with
    | refused refused =>
      rw [starts] at refused
      cases refused
    | returned starts' finishes =>
      rw [starts] at starts'
      cases starts'
      exact ⟨_, _, finishes, rfl, rfl⟩
    | trapped starts' traps =>
      rw [starts] at starts'
      cases starts'
      exact ⟨_, _, traps, rfl⟩
  constructor
  · rintro ⟨fuel, ended⟩
    exact told ended
  · intro ends
    obtain ⟨bound, longest⟩ := ends.bounded
    have answers : (run? (bound + 1) started).isSome = true := by
      apply isSome_run?_of_steps
      intro m' steps
      exact absurd (longest _ m' steps) (Nat.not_le.mpr (Nat.lt_succ_self bound))
    obtain ⟨outcome, running⟩ := Option.isSome_iff_exists.mp answers
    have ended : ∃ other, (invoke? (bound + 1) index args m).map Answer.ofResult = some other := by
      simp only [invoke?, starts, running]
      cases outcome <;> exact ⟨_, rfl⟩
    obtain ⟨other, ended⟩ := ended
    obtain rfl := ends.unique (told ended)
    exact ⟨bound + 1, ended⟩

/-- A machine that is reset after an invocation is the machine from before with the globals that the
invocation has left. -/
theorem reset_left {result : EStateM.Result Error Machine (List Value)}
    (ended : invoke? fuel index args m = some result) :
    (Operation.left result).reset = { m.reset with globals := (Answer.ofResult result).globals } := by
  have same {left : Machine} (setup : m.SameSetup left) :
      left.reset = { m.reset with globals := left.globals } := by
    obtain ⟨functions, globals, exports, frames, results, maxDepth⟩ := left
    obtain ⟨rfl, rfl, rfl⟩ := setup
    rfl
  cases invoked_of_invoke? ended with
  | refused => rfl
  | returned starts finishes =>
    have setup := (SameSetup.starts starts).trans finishes.1.sameSetup
    exact same ⟨setup.functions, setup.exports, setup.maxDepth⟩
  | trapped starts traps => exact same ((SameSetup.starts starts).trans traps.sameSetup)

theorem exists_invokeAll?_cons_iff {calls : List (UInt32 × List Value)} {answers : List Answer} :
    (∃ fuel, invokeAll? fuel ((index, args) :: calls) m = some answers) ↔
      ∃ answer rest, answers = answer :: rest ∧
        (∃ fuel, (invoke? fuel index args m).map Answer.ofResult = some answer) ∧
        ∃ fuel, invokeAll? fuel calls { m.reset with globals := answer.globals } = some rest := by
  constructor
  · rintro ⟨fuel, ended⟩
    unfold invokeAll? at ended
    cases first : invoke? fuel index args m with
    | none => simp only [first, reduceCtorEq] at ended
    | some result =>
      simp only [first, Option.map_eq_some_iff] at ended
      obtain ⟨rest, later, rfl⟩ := ended
      rw [reset_left first] at later
      exact ⟨_, rest, rfl, ⟨fuel, by rw [first, Option.map_some]⟩, fuel, later⟩
  · rintro ⟨answer, rest, rfl, ⟨fuel, first⟩, more, later⟩
    obtain ⟨result, invoked, rfl⟩ := Option.map_eq_some_iff.mp first
    rw [← reset_left invoked] at later
    refine ⟨max fuel more, ?_⟩
    unfold invokeAll?
    simp only [invoke?_mono (Nat.le_max_left ..) invoked, invokeAll?_mono (Nat.le_max_right ..) later,
      Option.map_some]

end

end Machine

end ScopeMachine
