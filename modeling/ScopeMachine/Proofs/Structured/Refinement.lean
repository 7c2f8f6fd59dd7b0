import ScopeMachine.Proofs.Structured.Simulation

/-! # Flat execution refines structured code

For a machine whose functions are laid out procedures, a run and the meaning of the procedure that it
starts with agree on everything that can be seen from outside: whether there is an end, the values
that are returned or the cause of the trap, and the globals. The meaning says what the machine does in
each of these cases, and a run ends in one way only, so each way that the machine can end leads back
to the same case of the meaning.
-/

namespace ScopeMachine

namespace Procedure

variable {procedures : List Procedure} {m : Machine} {p : Procedure} {args : List Value} {fuel : Nat}

/-- What the run of a procedure says with some fuel is what the machine does. -/
theorem run?_spec (functions : m.functions = procedures.map Procedure.function) (p : Procedure)
    (args : List Value) (fuel : Nat) :
    match p.run? procedures fuel m.maxDepth args m.globals with
    | none => ∃ k m', fuel ≤ k ∧ Machine.Steps k (m.starting p.function args) m'
    | some answer => (m.starting p.function args).Ends answer := by
  have functions : { m with results := [] }.functions = procedures.map Procedure.function := functions
  have does := (Machine.simulates_exec procedures fuel).procedure functions [] p args m.globals
  obtain ⟨j, settles⟩ := Machine.exists_steps_retireFinished
    (m := m.starting p.function args) (List.cons_ne_nil _ _)
  unfold run?
  cases result : p.body.exec procedures fuel (m.maxDepth - 1) 0 (p.entering args m.globals) with
  | none =>
    obtain ⟨k, m', many, steps⟩ := (result ▸ does : ∃ k m', fuel ≤ k ∧ Machine.Steps k _ m')
    exact ⟨j + k, m', by omega, settles.append steps⟩
  | some outcome =>
    have answers : Machine.Answers _ _ _ outcome.answer := result ▸ does
    change Machine.Ends _ outcome.answer
    cases answer : outcome.answer with
    | returns values globals =>
      rw [answer] at answers
      obtain ⟨k, last, steps, rfl⟩ := answers
      exact ⟨j + k, _, ⟨settles.append steps, rfl⟩, rfl, rfl⟩
    | traps e globals =>
      rw [answer] at answers
      obtain ⟨k, m', traps, same⟩ := answers
      exact ⟨j + k, m', .append settles traps, same⟩

theorem ends_of_run? {answer : Answer} (functions : m.functions = procedures.map Procedure.function)
    (result : p.run? procedures fuel m.maxDepth args m.globals = some answer) :
    (m.starting p.function args).Ends answer := by
  have does := run?_spec functions p args fuel
  rwa [result] at does

/-- Fuel for more steps than the machine takes is enough for an answer. -/
theorem exists_run?_of_bounded {bound : Nat} (functions : m.functions = procedures.map Procedure.function)
    (longest : ∀ k m', Machine.Steps k (m.starting p.function args) m' → k ≤ bound) :
    ∃ answer, p.run? procedures (bound + 1) m.maxDepth args m.globals = some answer := by
  cases result : p.run? procedures (bound + 1) m.maxDepth args m.globals with
  | some answer => exact ⟨answer, rfl⟩
  | none =>
    have does := run?_spec functions p args (bound + 1)
    rw [result] at does
    obtain ⟨k, m', many, steps⟩ := does
    have := longest k m' steps
    omega

end Procedure

namespace Machine

/-- A machine whose functions are laid out procedures starts each of them with the right number of
arguments. The run then ends with just the answers that the meaning of the procedure has with some
fuel, and goes on forever if that has none with any. -/
theorem run_refines_structured (procedures : List Procedure) (m : Machine) (index : UInt32) {p : Procedure}
    (args : List Value) (functions : m.functions = procedures.map Procedure.function) (idle : m.frames = [])
    (known : procedures[index.toNat]? = some p) (count : args.length = p.params.length) :
    ∃ started, start index args m = .ok () started ∧
      (∀ answer, (∃ fuel, p.run? procedures fuel m.maxDepth args m.globals = some answer) ↔
        started.Ends answer) ∧
      ((∀ fuel, p.run? procedures fuel m.maxDepth args m.globals = none) ↔ started.RunsForever) := by
  have function : m.functions[index.toNat]? = some p.function := by
    rw [functions, List.getElem?_map, known]
    rfl
  have starts : start index args m = .ok () (m.starting p.function args) :=
    start_eq_ok_iff.mpr ⟨idle, p.function, function, count, rfl⟩
  refine ⟨_, starts, ?_, ?_⟩
  · intro answer
    constructor
    · rintro ⟨fuel, result⟩
      exact Procedure.ends_of_run? functions result
    · intro ended
      obtain ⟨bound, longest⟩ := ended.bounded
      obtain ⟨other, result⟩ := Procedure.exists_run?_of_bounded functions longest
      obtain rfl := ended.unique (Procedure.ends_of_run? functions result)
      exact ⟨bound + 1, result⟩
  · constructor
    · intro silent
      rcases ends_or_runsForever (m.starting p.function args) with ⟨answer, ended⟩ | endless
      · obtain ⟨bound, longest⟩ := ended.bounded
        obtain ⟨other, result⟩ := Procedure.exists_run?_of_bounded functions longest
        rw [silent] at result
        cases result
      · exact endless
    · intro endless fuel
      cases result : p.run? procedures fuel m.maxDepth args m.globals with
      | none => rfl
      | some answer =>
        have ended := Procedure.ends_of_run? functions result
        exact (ended.not_runsForever endless).elim

/-- The product of the numbers from one to the argument, by a call of itself from inside a choice. A
global counts the calls. -/
def factorial : Procedure :=
  let count := fun rest : Code => .plain (.globalGet 0) rfl (.plain (.const 1) rfl
    (.plain (.binary .add) rfl (.plain (.globalSet 0) rfl rest)))
  let recursive : Code := .plain (.localGet 0) rfl (.plain (.localGet 0) rfl (.plain (.const 1) rfl
    (.plain (.binary .sub) rfl (.call 0 (.plain (.binary .mul) rfl (.plain (.localSet 0) rfl .nil))))))
  { params := [.i32]
    results := [.i32]
    body := count (.plain (.localGet 0) rfl (.choice .empty recursive
      (.plain (.const 1) rfl (.plain (.localSet 0) rfl .nil)) (.plain (.localGet 0) rfl .nil))) }

theorem run_refines_factorial :
    ∃ started, start 0 [5] { functions := [factorial.function], globals := [0], maxDepth := 6 } = .ok () started ∧
      started.Ends (.returns [120] [6]) := by
  have result : factorial.run? [factorial] 7 6 [5] [0] = some (.returns [120] [6]) := by decide +kernel
  obtain ⟨started, starts, ends, -⟩ := run_refines_structured [factorial]
    { functions := [factorial.function], globals := [0], maxDepth := 6 } 0 [5] rfl rfl rfl rfl
  exact ⟨started, starts, (ends _).mp ⟨7, result⟩⟩

end Machine

end ScopeMachine
