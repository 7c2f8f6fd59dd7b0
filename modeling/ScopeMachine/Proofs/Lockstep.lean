import ScopeMachine.Proofs.Answer

/-! # Machines in lockstep

Two machines run in lockstep if they are related in a way that every step keeps. Step by step they then
do the same, so they have the same answers.
-/

namespace ScopeMachine.Machine

/-- What an action does to each of two machines: it leaves both of them related, or it fails on both with
the same error and the same globals. -/
inductive Paired (S : Machine → Machine → Prop) :
    EStateM.Result Error Machine Unit → EStateM.Result Error Machine Unit → Prop
  | ok {n n' : Machine} (related : S n n') : Paired S (.ok () n) (.ok () n')
  | error {n n' : Machine} (e : Error) (globals : n'.globals = n.globals) : Paired S (.error e n) (.error e n')

/-- Every step keeps the relation, and of related machines the same is seen. -/
structure Lockstep (S : Machine → Machine → Prop) : Prop where
  idle {m m' : Machine} (related : S m m') : m.frames = [] ↔ m'.frames = []
  results {m m' : Machine} (related : S m m') : m'.results = m.results
  globals {m m' : Machine} (related : S m m') : m'.globals = m.globals
  step {m m' : Machine} (related : S m m') (busy : m.frames ≠ []) : Paired S (step m) (step m')

namespace Lockstep

variable {S : Machine → Machine → Prop} {m m' : Machine} {index index' : UInt32} {args : List Value}
  (lockstep : Lockstep S)
include lockstep

/-- Runs of related machines end after the same number of steps, and in the same way. -/
theorem run? (related : S m m') (fuel : Nat) : Option.Rel (Paired S) (run? fuel m) (run? fuel m') := by
  induction fuel generalizing m m' with
  | zero =>
    unfold Machine.run?
    simp only [idle_iff, lockstep.idle related]
    split
    · exact .some (.ok related)
    · exact .none
  | succ fuel ih =>
    unfold Machine.run?
    simp only [idle_iff, lockstep.idle related]
    split
    · exact .some (.ok related)
    · rename_i busy
      have paired := lockstep.step related (mt (lockstep.idle related).mp busy)
      generalize Machine.step m = own, Machine.step m' = other at paired
      cases paired with
      | ok next => exact ih next
      | error e globals => exact .some (.error e globals)

/-- Starts with related outcomes lead to the same answer, after the same number of steps. -/
theorem map_invoke? (starts : Paired S (start index args m) (start index' args m')) (fuel : Nat) :
    (invoke? fuel index args m).map Answer.ofResult = (invoke? fuel index' args m').map Answer.ofResult := by
  unfold invoke?
  generalize start index args m = own, start index' args m' = other at starts
  cases starts with
  | error e globals => simp only [Option.map_some, Answer.ofResult, globals]
  | @ok n n' related =>
    have runs := lockstep.run? related fuel
    dsimp only
    generalize Machine.run? fuel n = own, Machine.run? fuel n' = other at runs
    cases runs with
    | none => rfl
    | some paired =>
      cases paired with
      | ok last =>
        simp only [takeResults, Option.map_some, Answer.ofResult, lockstep.results last, lockstep.globals last]
      | error e globals => simp only [Option.map_some, Answer.ofResult, globals]

end Lockstep

end ScopeMachine.Machine
