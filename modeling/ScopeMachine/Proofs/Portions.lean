import ScopeMachine.Proofs.Run

/-! # Runs in portions

Somebody may wait for the end of a run, or take only so many steps at a time and look what has become of it. It
makes no difference how the steps are divided (`Machine.runSteps_add`). A run that ends makes a number of steps of
its own, one that fails included (`Machine.EndsIn`): whoever allows for as many steps or more is told how it ends,
and whoever allows for fewer, that it has not ended (`Machine.run_in_portions`).
-/

namespace ScopeMachine.Machine

variable {n limit fuel : Nat} {m m' : Machine} {e : Error} {result other : EStateM.Result Error Machine Unit}

theorem runSteps_of_idle (idle : m.frames = []) (limit : Nat) : runSteps limit m = .ok true m := by
  have idle : m.idle = true := idle_iff.mpr idle
  cases limit with
  | zero => simp only [runSteps, idle]
  | succ limit => simp only [runSteps, idle, ↓reduceIte]

/-- Steps taken in two portions are steps taken at once. -/
theorem runSteps_add (a b : Nat) (m : Machine) : runSteps (a + b) m = match runSteps a m with
    | .ok _ m' => runSteps b m'
    | .error e m' => .error e m' := by
  induction a generalizing m with
  | zero =>
    rw [Nat.zero_add]
    rfl
  | succ a ih =>
    by_cases idle : m.frames = []
    · rw [runSteps_of_idle idle, runSteps_of_idle idle]
      exact (runSteps_of_idle idle b).symm
    · have busy : m.idle = false := Bool.eq_false_iff.mpr (mt idle_iff.mp idle)
      rw [Nat.add_right_comm]
      simp only [runSteps, busy, Bool.false_eq_true, ↓reduceIte]
      cases step m with
      | ok _ next => exact ih next
      | error e failed => rfl

/-- A run ends with the given result after so many steps have been made, one that fails included. -/
def EndsIn (n : Nat) (m : Machine) : EStateM.Result Error Machine Unit → Prop
  | .ok _ m' => Finishes n m m'
  | .error e m' => ∃ k, n = k + 1 ∧ Traps k m e m'

/-- What somebody is told about a run that has ended who has allowed for so many steps only. -/
def reported : EStateM.Result Error Machine Unit → EStateM.Result Error Machine Bool
  | .ok _ m => .ok true m
  | .error e m => .error e m

namespace EndsIn

theorem deterministic (left : EndsIn n m result) (right : EndsIn limit m other) : limit = n ∧ other = result := by
  cases result with
  | ok _ m' =>
    cases other with
    | ok _ m'' =>
      obtain ⟨same, rfl⟩ := Finishes.deterministic left right
      exact ⟨same, rfl⟩
    | error e m'' =>
      obtain ⟨k, -, traps⟩ := right
      exact (traps.not_finishes left).elim
  | error e m' =>
    obtain ⟨k, rfl, traps⟩ := left
    cases other with
    | ok _ m'' => exact (traps.not_finishes right).elim
    | error e' m'' =>
      obtain ⟨k', rfl, traps'⟩ := right
      obtain ⟨rfl, rfl, rfl⟩ := traps.deterministic traps'
      exact ⟨rfl, rfl⟩

/-- A walk that has not come to the end of the run is shorter than the run. -/
theorem lt (ends : EndsIn n m result) (steps : Steps limit m m') (busy : m'.frames ≠ []) : limit < n := by
  cases result with
  | ok _ last =>
    apply Nat.lt_of_le_of_ne (Finishes.le ends steps)
    rintro rfl
    obtain ⟨all, idle⟩ := ends
    rw [steps.deterministic all] at idle
    exact busy idle
  | error e last =>
    obtain ⟨k, rfl, traps⟩ := ends
    exact Nat.lt_succ_of_le (traps.le steps)

end EndsIn

/-- The wait for the end of a run is over when the run is, or it has not been long enough. -/
theorem run?_cases (fuel : Nat) (m : Machine) :
    (∃ n ≤ fuel, ∃ result, EndsIn n m result ∧ run? fuel m = some result) ∨
      ∃ m', Steps fuel m m' ∧ m'.frames ≠ [] ∧ run? fuel m = none := by
  have spec := run?_spec fuel m
  cases answer : run? fuel m with
  | none =>
    rw [answer] at spec
    obtain ⟨m', steps, busy⟩ := spec
    exact .inr ⟨m', steps, busy, rfl⟩
  | some result =>
    rw [answer] at spec
    cases result with
    | ok _ m' =>
      obtain ⟨n, enough, finishes⟩ := spec
      exact .inl ⟨n, enough, .ok () m', finishes, rfl⟩
    | error e m' =>
      obtain ⟨k, less, traps⟩ := spec
      exact .inl ⟨k + 1, less, .error e m', ⟨k, rfl, traps⟩, rfl⟩

/-- The wait for the end of a run is long enough if no frame is left after as many steps. -/
theorem isSome_run?_of_steps (enough : ∀ m', Steps fuel m m' → m'.frames = []) : (run? fuel m).isSome = true := by
  rcases run?_cases fuel m with ⟨n, -, result, -, answer⟩ | ⟨m', steps, busy, -⟩
  · exact Option.isSome_of_eq_some answer
  · exact (busy (enough m' steps)).elim

/-- Whoever takes so many steps comes to the end of the run, or finds that it goes on. -/
theorem runSteps_cases (limit : Nat) (m : Machine) :
    (∃ n ≤ limit, ∃ result, EndsIn n m result ∧ runSteps limit m = reported result) ∨
      ∃ m', Steps limit m m' ∧ m'.frames ≠ [] ∧ runSteps limit m = .ok false m' := by
  have spec := runSteps_spec limit m
  cases answer : runSteps limit m with
  | error e m' =>
    rw [answer] at spec
    obtain ⟨k, less, traps⟩ := spec
    exact .inl ⟨k + 1, less, .error e m', ⟨k, rfl, traps⟩, rfl⟩
  | ok finished m' =>
    rw [answer] at spec
    obtain ⟨rfl, n, enough, steps, last⟩ := spec
    by_cases idle : m'.frames = []
    · exact .inl ⟨n, enough, .ok () m', ⟨steps, idle⟩, by rw [idle_iff.mpr idle]; rfl⟩
    · obtain rfl | stopped := last
      · exact .inr ⟨m', steps, idle, by rw [Bool.eq_false_iff.mpr (mt idle_iff.mp idle)]⟩
      · exact (idle stopped).elim

/-- Waiting for the end of a run tells how it ends, provided that the wait is as long as the run. -/
theorem run?_eq_some_iff : run? fuel m = some result ↔ ∃ n ≤ fuel, EndsIn n m result := by
  rcases run?_cases fuel m with ⟨n, enough, ended, ends, answer⟩ | ⟨m', steps, busy, answer⟩
  · rw [answer, Option.some.injEq]
    constructor
    · rintro rfl
      exact ⟨n, enough, ends⟩
    · rintro ⟨k, -, ends'⟩
      exact (ends'.deterministic ends).2
  · simp only [answer, reduceCtorEq, false_iff]
    rintro ⟨n, enough, ends⟩
    exact absurd (ends.lt steps busy) (Nat.not_lt.mpr enough)

namespace EndsIn

theorem runSteps_of_le (ends : EndsIn n m result) (enough : n ≤ limit) : runSteps limit m = reported result := by
  rcases runSteps_cases limit m with ⟨k, -, ended, ends', answer⟩ | ⟨m', steps, busy, -⟩
  · obtain ⟨-, rfl⟩ := ends.deterministic ends'
    exact answer
  · exact absurd (ends.lt steps busy) (Nat.not_lt.mpr enough)

theorem runSteps_of_lt (ends : EndsIn n m result) (few : limit < n) :
    ∃ m', runSteps limit m = .ok false m' ∧ m'.frames ≠ [] := by
  rcases runSteps_cases limit m with ⟨k, enough, ended, ends', -⟩ | ⟨m', -, busy, answer⟩
  · obtain ⟨rfl, -⟩ := ends.deterministic ends'
    exact absurd few (Nat.not_lt.mpr enough)
  · exact ⟨m', answer, busy⟩

end EndsIn

theorem reported_injective (same : reported result = reported other) : result = other := by
  cases result <;> cases other <;> cases same <;> rfl

/-- It makes no difference whether steps are taken in portions or at once. If the wait for the end of a run is over
at all, the run has made a number of steps: whoever allows for as many or more comes to the same end, and whoever
allows for fewer finds the machine busy. And whoever finds a run at its end while taking so many steps, would have
seen the same end by waiting for it. -/
theorem run_in_portions (m : Machine) :
    (∀ a b, runSteps (a + b) m = match runSteps a m with
      | .ok _ m' => runSteps b m'
      | .error e m' => .error e m') ∧
    (∀ fuel result, run? fuel m = some result → ∃ n ≤ fuel, EndsIn n m result ∧
      (∀ limit, n ≤ limit → runSteps limit m = reported result) ∧
      ∀ limit, limit < n → ∃ m', runSteps limit m = .ok false m' ∧ m'.frames ≠ []) ∧
    ∀ limit result, runSteps limit m = reported result → ∃ fuel, run? fuel m = some result := by
  refine ⟨fun a b => runSteps_add a b m, ?_, ?_⟩
  · intro fuel result ended
    obtain ⟨n, enough, ends⟩ := run?_eq_some_iff.mp ended
    exact ⟨n, enough, ends, fun limit => ends.runSteps_of_le, fun limit => ends.runSteps_of_lt⟩
  · intro limit result answered
    rcases runSteps_cases limit m with ⟨n, -, ended, ends, answer⟩ | ⟨m', -, -, answer⟩
    · obtain rfl := reported_injective (answered.symm.trans answer)
      exact ⟨n, run?_eq_some_iff.mpr ⟨n, Nat.le_refl n, ends⟩⟩
    · rw [answer] at answered
      cases result <;> cases answered

/-- A machine with a function that calls one which has no operand to drop, since the caller's are out of its reach. -/
def dropping : Machine := { functions := [{ body := #[.const 5, .call 1] }, { body := #[.drop] }] }

theorem run_in_portions_dropping :
    ∃ started m' mid, start 0 [] dropping = .ok () started ∧ run? 7 started = some (.error .stackUnderflow m') ∧
      EndsIn 3 started (.error .stackUnderflow m') ∧ runSteps 3 started = .error .stackUnderflow m' ∧
      runSteps 2 started = .ok false mid ∧ mid.frames ≠ [] ∧ runSteps 1 mid = .error .stackUnderflow m' := by
  have reached : ∃ started m', start 0 [] dropping = .ok () started ∧
      run? 7 started = some (.error .stackUnderflow m') ∧ EndsIn 3 started (.error .stackUnderflow m') :=
    ⟨_, _, rfl, rfl, 2, rfl, _, .cons (List.cons_ne_nil _ _) rfl (.cons (List.cons_ne_nil _ _) rfl (.refl _)), rfl⟩
  obtain ⟨started, m', starts, ended, three⟩ := reached
  obtain ⟨portions, answers, -⟩ := run_in_portions started
  obtain ⟨n, -, ends, enough, few⟩ := answers 7 _ ended
  obtain ⟨rfl, -⟩ := ends.deterministic three
  obtain ⟨mid, first, busy⟩ := few 2 (by decide)
  have rest := portions 2 1
  rw [first, enough (2 + 1) (Nat.le_refl 3)] at rest
  exact ⟨started, m', mid, starts, ended, three, enough 3 (Nat.le_refl 3), first, busy, rest.symm⟩

end ScopeMachine.Machine
