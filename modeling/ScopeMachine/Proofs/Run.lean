import ScopeMachine.Proofs.Step

/-! # Runs

`Machine.Steps` counts the successful steps of a machine that is not idle yet. A run ends in one of
two ways, `Finishes` and `Traps`, at a number of steps that the machine it starts from determines, or
it does not end. `run?_spec` and `runSteps_spec` say in these terms what the operations that take many steps
do.
-/

namespace ScopeMachine.Machine

/-- A number of successful steps, none of which is taken by an idle machine. -/
inductive Steps : Nat → Machine → Machine → Prop
  | refl (m : Machine) : Steps 0 m m
  | cons {n : Nat} {m m' m'' : Machine} (busy : m.frames ≠ []) (head : step m = .ok () m')
      (tail : Steps n m' m'') : Steps (n + 1) m m''

/-- After the given number of steps the machine is idle. -/
def Finishes (n : Nat) (m m' : Machine) : Prop := Steps n m m' ∧ m'.frames = []

/-- The step after the given number of successful ones fails and leaves the last machine. -/
def Traps (n : Nat) (m : Machine) (e : Error) (m' : Machine) : Prop :=
  ∃ last, Steps n m last ∧ step last = .error e m'

/-- However many steps are taken, the machine is not idle. -/
def RunsForever (m : Machine) : Prop := ∀ n, ∃ m', Steps n m m' ∧ m'.frames ≠ []

theorem busy_of_step_error {m m' : Machine} {e : Error} (failed : step m = .error e m') :
    m.frames ≠ [] := by
  intro idle
  rw [step_of_idle idle] at failed
  cases failed

namespace Steps

variable {k n : Nat} {m m' m'' : Machine}

@[simp] theorem zero_iff : Steps 0 m m' ↔ m' = m := by
  constructor
  · intro steps
    cases steps
    rfl
  · rintro rfl
    exact .refl _

theorem single (busy : m.frames ≠ []) (head : step m = .ok () m') : Steps 1 m m' :=
  .cons busy head (.refl _)

theorem append (left : Steps k m m') (right : Steps n m' m'') : Steps (k + n) m m'' := by
  induction left with
  | refl => rwa [Nat.zero_add]
  | @cons j _ _ _ busy head _ ih =>
    rw [Nat.add_right_comm]
    exact .cons busy head (ih right)

/-- A longer walk passes through the end of every shorter one from the same machine. -/
theorem split (short : Steps k m m') (long : Steps (k + n) m m'') : Steps n m' m'' := by
  induction short with
  | refl => rwa [Nat.zero_add] at long
  | cons _ head _ ih =>
    rw [Nat.add_right_comm] at long
    cases long with
    | cons _ head' tail =>
      rw [head] at head'
      cases head'
      exact ih tail

theorem deterministic (left : Steps n m m') (right : Steps n m m'') : m'' = m' :=
  zero_iff.mp (left.split (n := 0) right)

/-- An idle machine takes no more steps. -/
theorem of_idle (steps : Steps n m m') (idle : m.frames = []) : n = 0 ∧ m' = m := by
  cases steps with
  | refl => exact ⟨rfl, rfl⟩
  | cons busy => exact (busy idle).elim

/-- A property that every step keeps holds after any number of steps. -/
theorem preserves {P : Machine → Prop} (keeps : ∀ m m', Advances m m' → P m → P m')
    (steps : Steps n m m') (initial : P m) : P m' := by
  induction steps with
  | refl => exact initial
  | cons _ head _ ih => exact ih (keeps _ _ (step_eq_ok_iff.mp head) initial)

theorem sameSetup (steps : Steps n m m') : m.SameSetup m' :=
  steps.preserves (fun _ _ advances same => same.trans (.advances advances)) (.refl m)

end Steps

namespace Finishes

variable {k n : Nat} {m m' m'' : Machine}

/-- No walk from the same machine is longer than one that ends at an idle machine. -/
theorem le (finishes : Finishes n m m') (steps : Steps k m m'') : k ≤ n := by
  apply Nat.le_of_not_lt
  intro longer
  obtain ⟨extra, rfl⟩ := Nat.exists_eq_add_of_lt longer
  obtain ⟨steps', idle⟩ := finishes
  rw [Nat.add_assoc] at steps
  obtain ⟨none, -⟩ := (steps'.split steps).of_idle idle
  omega

theorem deterministic (left : Finishes k m m') (right : Finishes n m m'') : n = k ∧ m'' = m' := by
  have same : n = k := Nat.le_antisymm (left.le right.1) (right.le left.1)
  subst same
  exact ⟨rfl, left.1.deterministic right.1⟩

end Finishes

namespace Traps

variable {k n : Nat} {m m' m'' : Machine} {e e' : Error}

/-- No walk from the same machine goes on after a step that fails. -/
theorem le (traps : Traps n m e m') (steps : Steps k m m'') : k ≤ n := by
  apply Nat.le_of_not_lt
  intro longer
  obtain ⟨extra, rfl⟩ := Nat.exists_eq_add_of_lt longer
  obtain ⟨last, steps', failed⟩ := traps
  rw [Nat.add_assoc] at steps
  cases steps'.split steps with
  | cons _ head =>
    rw [head] at failed
    cases failed

theorem deterministic (left : Traps k m e m') (right : Traps n m e' m'') :
    n = k ∧ e' = e ∧ m'' = m' := by
  obtain ⟨last, steps, failed⟩ := id left
  obtain ⟨last', steps', failed'⟩ := id right
  have same : n = k := Nat.le_antisymm (left.le steps') (right.le steps)
  subst same
  obtain rfl := steps.deterministic steps'
  rw [failed] at failed'
  cases failed'
  exact ⟨rfl, rfl, rfl⟩

theorem append (steps : Steps k m m') (traps : Traps n m' e m'') : Traps (k + n) m e m'' := by
  obtain ⟨last, steps', failed⟩ := traps
  exact ⟨last, steps.append steps', failed⟩

/-- A step that fails leaves its frame where it is. -/
theorem busy (traps : Traps n m e m') : m'.frames ≠ [] := by
  obtain ⟨last, -, failed⟩ := traps
  obtain ⟨f, callers, i, stack, -, -, rfl⟩ := step_error failed
  exact List.cons_ne_nil _ _

theorem sameSetup (traps : Traps n m e m') : m.SameSetup m' := by
  obtain ⟨last, steps, failed⟩ := traps
  exact steps.sameSetup.trans (.of_step_error failed)

/-- A run that traps does not finish. -/
theorem not_finishes (traps : Traps k m e m') : ¬ Finishes n m m'' := by
  rintro ⟨steps', idle⟩
  obtain ⟨last, steps, failed⟩ := traps
  obtain ⟨extra, rfl⟩ := Nat.exists_eq_add_of_le (Finishes.le ⟨steps', idle⟩ steps)
  cases steps.split steps' with
  | refl => exact busy_of_step_error failed idle
  | cons _ head =>
    rw [head] at failed
    cases failed

end Traps

namespace RunsForever

variable {n : Nat} {m m' : Machine} {e : Error}

theorem not_finishes (endless : RunsForever m) : ¬ Finishes n m m' := by
  intro finishes
  obtain ⟨later, steps, -⟩ := endless (n + 1)
  have := finishes.le steps
  omega

theorem not_traps (endless : RunsForever m) : ¬ Traps n m e m' := by
  intro traps
  obtain ⟨later, steps, -⟩ := endless (n + 1)
  have := traps.le steps
  omega

end RunsForever

/-- A run finishes, traps or goes on forever. -/
theorem finishes_or_traps_or_runsForever (m : Machine) :
    (∃ n m', Finishes n m m') ∨ (∃ n e m', Traps n m e m') ∨ RunsForever m := by
  by_cases finishes : ∃ n m', Finishes n m m'
  · exact .inl finishes
  by_cases traps : ∃ n e m', Traps n m e m'
  · exact .inr (.inl traps)
  right
  right
  intro n
  have busy {k : Nat} {m' : Machine} (steps : Steps k m m') : m'.frames ≠ [] :=
    fun idle => finishes ⟨k, m', steps, idle⟩
  induction n with
  | zero => exact ⟨m, .refl m, busy (.refl m)⟩
  | succ n ih =>
    obtain ⟨m', steps, active⟩ := ih
    cases next : step m' with
    | error e m'' => exact (traps ⟨n, e, m'', m', steps, next⟩).elim
    | ok _ m'' =>
      have further := steps.append (.single active next)
      exact ⟨m'', further, busy further⟩

/-- Waiting for the end of a run tells how it ended, or that it goes on for as many steps as were
waited for. -/
theorem run?_spec (fuel : Nat) (m : Machine) :
    match run? fuel m with
    | none => ∃ m', Steps fuel m m' ∧ m'.frames ≠ []
    | some (.ok _ m') => ∃ n ≤ fuel, Finishes n m m'
    | some (.error e m') => ∃ n < fuel, Traps n m e m' := by
  induction fuel generalizing m with
  | zero =>
    unfold run?
    split_ifs with idle
    · exact ⟨0, Nat.le_refl 0, .refl m, idle_iff.mp idle⟩
    · exact ⟨m, .refl m, mt idle_iff.mpr idle⟩
  | succ fuel ih =>
    unfold run?
    split_ifs with idle
    · exact ⟨0, Nat.zero_le _, .refl m, idle_iff.mp idle⟩
    have busy : m.frames ≠ [] := mt idle_iff.mpr idle
    cases head : step m with
    | error e failed => exact ⟨0, by omega, m, .refl m, head⟩
    | ok _ next =>
      have rest := ih next
      dsimp only
      cases ended : run? fuel next with
      | none =>
        rw [ended] at rest
        obtain ⟨m', steps, active⟩ := rest
        exact ⟨m', .cons busy head steps, active⟩
      | some result =>
        rw [ended] at rest
        cases result with
        | ok _ m' =>
          obtain ⟨n, bound, steps, idle⟩ := rest
          exact ⟨n + 1, by omega, .cons busy head steps, idle⟩
        | error e m' =>
          obtain ⟨n, bound, last, steps, failed⟩ := rest
          exact ⟨n + 1, by omega, last, .cons busy head steps, failed⟩

/-- All ways in which an invocation can end. -/
inductive Invoked (index : UInt32) (args : List Value) (m : Machine) :
    EStateM.Result Error Machine (List Value) → Prop
  | refused {e : Error} (refused : start index args m = .error e m) : Invoked index args m (.error e m)
  | returned {started m' : Machine} {n : Nat} (starts : start index args m = .ok () started)
      (finishes : Finishes n started m') : Invoked index args m (.ok m'.results { m' with results := [] })
  | trapped {started m' : Machine} {n : Nat} {e : Error} (starts : start index args m = .ok () started)
      (traps : Traps n started e m') : Invoked index args m (.error e m')

/-- An invocation ends as its start does if that is refused, and else as the run does that it has started. -/
theorem invoked_of_invoke? {fuel : Nat} {index : UInt32} {args : List Value} {m : Machine}
    {result : EStateM.Result Error Machine (List Value)} (ended : invoke? fuel index args m = some result) :
    Invoked index args m result := by
  unfold invoke? at ended
  cases starts : start index args m with
  | error e m' =>
    obtain rfl := start_error starts
    rw [starts] at ended
    cases ended
    exact .refused starts
  | ok _ started =>
    have spec := run?_spec fuel started
    rw [starts] at ended
    dsimp only at ended
    cases running : run? fuel started with
    | none =>
      rw [running] at ended
      cases ended
    | some outcome =>
      rw [running] at ended spec
      cases outcome with
      | ok _ m' =>
        obtain ⟨n, -, finishes⟩ := spec
        cases ended
        exact .returned starts finishes
      | error e m' =>
        obtain ⟨n, -, traps⟩ := spec
        cases ended
        exact .trapped starts traps

/-- Stepping at most so many times takes all these steps, or ends where the run does. -/
theorem runSteps_spec (limit : Nat) (m : Machine) :
    match runSteps limit m with
    | .ok finished m' => finished = m'.idle ∧ ∃ n ≤ limit, Steps n m m' ∧ (n = limit ∨ m'.frames = [])
    | .error e m' => ∃ n < limit, Traps n m e m' := by
  induction limit generalizing m with
  | zero =>
    unfold runSteps
    exact ⟨rfl, 0, Nat.le_refl 0, .refl m, .inl rfl⟩
  | succ limit ih =>
    unfold runSteps
    split_ifs with idle
    · exact ⟨idle.symm, 0, Nat.zero_le _, .refl m, .inr (idle_iff.mp idle)⟩
    have busy : m.frames ≠ [] := mt idle_iff.mpr idle
    cases head : step m with
    | error e failed => exact ⟨0, by omega, m, .refl m, head⟩
    | ok _ next =>
      have rest := ih next
      dsimp only
      cases ended : runSteps limit next with
      | ok finished m' =>
        rw [ended] at rest
        obtain ⟨same, n, bound, steps, last⟩ := rest
        refine ⟨same, n + 1, by omega, .cons busy head steps, ?_⟩
        rcases last with rfl | done
        · exact .inl rfl
        · exact .inr done
      | error e m' =>
        rw [ended] at rest
        obtain ⟨n, bound, last, steps, failed⟩ := rest
        exact ⟨n + 1, by omega, last, .cons busy head steps, failed⟩

theorem steps_of_runSteps {limit : Nat} {m m' : Machine} (ran : runSteps limit m = .ok false m') :
    Steps limit m m' := by
  have spec := runSteps_spec limit m
  rw [ran] at spec
  obtain ⟨busy, n, -, steps, rfl | idle⟩ := spec
  · exact steps
  · rw [idle_iff.mpr idle] at busy
    cases busy

end ScopeMachine.Machine
