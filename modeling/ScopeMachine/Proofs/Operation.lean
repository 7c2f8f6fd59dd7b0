import ScopeMachine.Proofs.Run

/-! # Operations and histories

`Operation` names everything that can be done to a machine from outside, and a `History` is any
sequence of operations, whatever becomes of each of them. Operations are made of few small
transitions (`Operation.transitions`), and only a failing step gives a transition that is marked as
a trap. What every transition keeps is therefore kept by every history (`History.preserves`).
-/

namespace ScopeMachine

namespace Machine

/-- The smallest changes that operations are made of; the mark says whether a step has failed. -/
inductive Transition : Bool → Machine → Machine → Prop
  | addFunction {m : Machine} (f : Function) :
      Transition false m { m with functions := m.functions ++ [f] }
  | addGlobal {m : Machine} (v : Value) : Transition false m { m with globals := m.globals ++ [v] }
  | addExport {m : Machine} {name : String} {index : UInt32}
      (known : index.toNat < m.functions.length) (fresh : m.functionIndex? name = none) :
      Transition false m { m with exports := m.exports ++ [(name, index)] }
  | withMaxDepth {m : Machine} (depth : Nat) : Transition false m (m.withMaxDepth depth)
  | start {m : Machine} {index : UInt32} {f : Function} {args : List Value} (idle : m.frames = [])
      (known : m.functions[index.toNat]? = some f) (count : args.length = f.params.length) :
      Transition false m { m with frames := [.entering f args], results := [] }
  | opens {m m' : Machine} {index : UInt32} (opens : Opens index m m') : Transition false m m'
  | advances {m m' : Machine} (advances : Advances m m') : Transition false m m'
  | traps {m m' : Machine} {e : Error} (failed : step m = .error e m') : Transition true m m'
  | dropResults {m : Machine} : Transition false m { m with results := [] }
  | reset {m : Machine} : Transition false m m.reset

/-- Transitions one after the other, of which only the last may be a trap. -/
inductive Transitions : Bool → Machine → Machine → Prop
  | refl (m : Machine) : Transitions false m m
  | cons {trapped : Bool} {m m' m'' : Machine} (head : Transition false m m')
      (tail : Transitions trapped m' m'') : Transitions trapped m m''
  | trap {m m' : Machine} (last : Transition true m m') : Transitions true m m'

namespace Transitions

variable {trapped : Bool} {m m' m'' : Machine}

theorem single (head : Transition trapped m m') : Transitions trapped m m' := by
  cases trapped with
  | false => exact .cons head (.refl _)
  | true => exact .trap head

theorem append (left : Transitions false m m') (right : Transitions trapped m' m'') :
    Transitions trapped m m'' := by
  generalize mark : false = quiet at left
  induction left with
  | refl => exact right
  | cons head _ ih => exact .cons head (ih right mark)
  | trap => cases mark

theorem of_steps {n : Nat} (steps : Steps n m m') : Transitions false m m' := by
  induction steps with
  | refl => exact .refl _
  | cons _ head _ ih => exact .cons (.advances (step_eq_ok_iff.mp head)) ih

theorem of_traps {n : Nat} {e : Error} (traps : Traps n m e m') : Transitions true m m' := by
  obtain ⟨last, steps, failed⟩ := traps
  exact (of_steps steps).append (.trap (.traps failed))

/-- What every transition keeps is kept by any number of them. -/
theorem preserves {P : Machine → Prop}
    (keeps : ∀ mark m m', (mark = true → trapped = true) → Transition mark m m' → P m → P m')
    (transitions : Transitions trapped m m') (initial : P m) : P m' := by
  induction transitions with
  | refl => exact initial
  | cons head _ ih => exact ih keeps (keeps _ _ _ (by simp) head initial)
  | trap last => exact keeps _ _ _ (fun _ => rfl) last initial

end Transitions

end Machine

/-- What can be done to a machine from outside. -/
inductive Operation where
  | addFunction (f : Function)
  | addGlobal (v : Value)
  | addExport (name : String) (index : UInt32)
  | withMaxDepth (depth : Nat)
  | start (index : UInt32) (args : List Value)
  | call (index : UInt32)
  | invoke (index : UInt32) (args : List Value)
  | step
  | run
  | runSteps (limit : Nat)
  | takeResults
  | reset

namespace Operation

/-- The machine that an action leaves behind, whatever its result. -/
def left {α : Type} : EStateM.Result Error Machine α → Machine
  | .ok _ m => m
  | .error _ m => m

/-- Whether an action fails. -/
def failed {α : Type} : EStateM.Result Error Machine α → Bool
  | .ok _ _ => false
  | .error _ _ => true

/-- Whether a step fails in the course of an operation, and the machine that the operation leaves
behind. An operation that waits for the end of a run leaves none when the fuel is used up before. -/
def perform? (fuel : Nat) : Operation → Machine → Option (Bool × Machine)
  | addFunction f, m => some (false, left (m.addFunction f))
  | addGlobal v, m => some (false, left (m.addGlobal v))
  | addExport name index, m => some (false, left (m.addExport name index))
  | withMaxDepth depth, m => some (false, m.withMaxDepth depth)
  | start index args, m => some (false, left (m.start index args))
  | call index, m => some (false, left (m.call index))
  | invoke index args, m =>
    if failed (m.start index args) then some (false, left (m.start index args))
    else (m.invoke? fuel index args).map fun result => (failed result, left result)
  | step, m => some (failed m.step, left m.step)
  | run, m => (m.run? fuel).map fun result => (failed result, left result)
  | runSteps limit, m => some (failed (m.runSteps limit), left (m.runSteps limit))
  | takeResults, m => some (false, left m.takeResults)
  | reset, m => some (false, m.reset)

open Machine

private theorem transitions_start (index : UInt32) (args : List Value) (m : Machine) :
    Transitions false m (left (m.start index args)) := by
  cases started : m.start index args with
  | error e m' =>
    obtain rfl := start_error started
    exact .refl m'
  | ok _ m' =>
    obtain ⟨idle, f, known, count, rfl⟩ := start_eq_ok_iff.mp started
    exact .single (.start idle known count)

private theorem transitions_call {index : UInt32} (m : Machine) :
    Transitions false m (left (m.call index)) := by
  cases called : m.call index with
  | ok _ m' => exact .single (.opens (call_eq_ok_iff.mp called))
  | error e m' =>
    rcases call_error called with rfl | ⟨-, rfl⟩
    · exact .refl m'
    · exact .single .dropResults

private theorem transitions_addExport {name : String} {index : UInt32} (m : Machine) :
    Transitions false m (left (m.addExport name index)) := by
  unfold Machine.addExport
  split_ifs with unknown taken
  · exact .refl m
  · exact .refl m
  · exact .single (.addExport (Nat.lt_of_not_le unknown) (Option.not_isSome_iff_eq_none.mp taken))

private theorem transitions_run? {fuel : Nat} {m : Machine} {result : EStateM.Result Error Machine Unit}
    (ended : m.run? fuel = some result) : Transitions (failed result) m (left result) := by
  have spec := run?_spec fuel m
  rw [ended] at spec
  cases result with
  | ok _ m' =>
    obtain ⟨n, -, steps, -⟩ := spec
    exact .of_steps steps
  | error e m' =>
    obtain ⟨n, -, traps⟩ := spec
    exact .of_traps traps

private theorem transitions_runSteps {limit : Nat} (m : Machine) :
    Transitions (failed (m.runSteps limit)) m (left (m.runSteps limit)) := by
  have spec := runSteps_spec limit m
  cases ended : m.runSteps limit with
  | ok _ m' =>
    rw [ended] at spec
    obtain ⟨-, n, -, steps, -⟩ := spec
    exact .of_steps steps
  | error e m' =>
    rw [ended] at spec
    obtain ⟨n, -, traps⟩ := spec
    exact .of_traps traps

private theorem transitions_invoke? {fuel : Nat} {index : UInt32} {args : List Value} {m : Machine}
    {result : EStateM.Result Error Machine (List Value)} (accepted : failed (m.start index args) = false)
    (ended : m.invoke? fuel index args = some result) :
    Transitions (failed result) m (left result) := by
  have opening := transitions_start index args m
  cases invoked_of_invoke? ended with
  | refused refused =>
    rw [refused] at accepted
    cases accepted
  | returned starts finishes =>
    rw [starts] at opening
    exact opening.append ((Transitions.of_steps finishes.1).append (.single .dropResults))
  | trapped starts traps =>
    rw [starts] at opening
    exact opening.append (.of_traps traps)

/-- Every operation is a sequence of transitions, and it is a trap that marks it. -/
theorem transitions {op : Operation} {fuel : Nat} {trapped : Bool} {m m' : Machine}
    (performed : op.perform? fuel m = some (trapped, m')) : Transitions trapped m m' := by
  cases op with
  | addFunction f => cases performed; exact .single (.addFunction f)
  | addGlobal v => cases performed; exact .single (.addGlobal v)
  | addExport name index => cases performed; exact transitions_addExport m
  | withMaxDepth depth => cases performed; exact .single (.withMaxDepth depth)
  | start index args => cases performed; exact transitions_start index args m
  | call index => cases performed; exact transitions_call m
  | invoke index args =>
    simp only [perform?] at performed
    split_ifs at performed with refused
    · cases performed
      exact transitions_start index args m
    · obtain ⟨result, ended, same⟩ := Option.map_eq_some_iff.mp performed
      cases same
      exact transitions_invoke? (Bool.eq_false_iff.mpr refused) ended
  | step =>
    cases head : m.step with
    | ok _ next =>
      rw [perform?, head] at performed
      cases performed
      exact .single (.advances (step_eq_ok_iff.mp head))
    | error e next =>
      rw [perform?, head] at performed
      cases performed
      exact .single (.traps head)
  | run =>
    obtain ⟨result, ended, same⟩ := Option.map_eq_some_iff.mp performed
    cases same
    exact transitions_run? ended
  | runSteps limit => cases performed; exact transitions_runSteps m
  | takeResults => cases performed; exact .single .dropResults
  | reset => cases performed; exact .single .reset

end Operation

/-- Any sequence of operations, each of which may succeed or fail. -/
inductive History : List Operation → Machine → Machine → Prop
  | nil (m : Machine) : History [] m m
  | cons {op : Operation} {ops : List Operation} (fuel : Nat) {trapped : Bool} {m m' m'' : Machine}
      (head : op.perform? fuel m = some (trapped, m')) (tail : History ops m' m'') :
      History (op :: ops) m m''

namespace History

variable {ops later : List Operation} {m m' m'' : Machine}

/-- What every transition keeps is kept by every history. -/
theorem preserves {P : Machine → Prop}
    (keeps : ∀ mark m m', Machine.Transition mark m m' → P m → P m') (history : History ops m m')
    (initial : P m) : P m' := by
  induction history with
  | nil => exact initial
  | cons _ head _ ih =>
    exact ih ((Operation.transitions head).preserves (fun mark m m' _ => keeps mark m m') initial)

end History

end ScopeMachine
