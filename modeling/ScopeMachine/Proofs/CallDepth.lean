import ScopeMachine.Proofs.Beneath
import ScopeMachine.Proofs.Portions

/-! # How many calls may be under way

Two operations open a frame. A call, which an instruction or somebody outside makes, needs room below the limit
on frames and is the only thing that fails for want of it (`Machine.call_eq_exhausted_iff`,
`Machine.step_eq_exhausted_iff`). A start needs an idle machine, but it does not look at the limit. So no
operation takes a machine beyond its limit (`Operation.limited`), except that a run can be started on a machine
that allows no frame at all.
-/

namespace ScopeMachine

namespace Machine

variable {m m' : Machine} {index : UInt32}

/-- A call of a function that is known fails for want of room if there are as many frames as there may be, and
only then. Nothing is changed. -/
theorem call_eq_exhausted_iff : call index m = .error .callDepthExhausted m' ↔
    index.toNat < m.functions.length ∧ m.maxDepth ≤ m.frames.length ∧ m' = m := by
  rw [call_eq_error_iff]
  constructor
  · intro declines
    cases declines with
    | callDepthExhausted known full => exact ⟨known, full, rfl⟩
  · rintro ⟨known, full, rfl⟩
    exact .callDepthExhausted known full

/-- The active frame is about to call a function, but there are as many frames as there may be. The second machine
has moved that frame past the call, and nothing else is changed. -/
inductive Overflows : Machine → Machine → Prop
  | intro {m : Machine} {f : Frame} {callers : List Frame} {index : UInt32} (frames : m.frames = f :: callers)
      (calls : f.instruction? = some (.call index)) (known : index.toNat < m.functions.length)
      (full : m.maxDepth ≤ m.frames.length) : Overflows m { m with frames := f.goto (f.pc + 1) :: callers }

/-- A step fails for want of room if the active frame is about to make a call for which there is none, and only
then. -/
theorem step_eq_exhausted_iff : step m = .error .callDepthExhausted m' ↔ m.Overflows m' := by
  rw [step_eq_error_iff]
  constructor
  · intro stops
    cases stops with
    | acts frames next fails => cases fails
    | calls frames next declines =>
      cases declines with
      | callDepthExhausted known full => exact .intro frames next known (by rwa [frames])
  · intro overflows
    cases overflows with
    | intro frames next known full =>
      rw [frames] at full
      exact .calls frames next (.callDepthExhausted known full)

/-- The limit on frames is `n`, and there are at most `k` frames. -/
structure Limited (n k : Nat) (m : Machine) : Prop where
  maxDepth : m.maxDepth = n
  frames : m.frames.length ≤ k

theorem length_retire_le (m : Machine) : m.retire.frames.length ≤ m.frames.length := by
  cases frames : m.frames with
  | nil => simp [retire, frames]
  | cons f callers => exact Nat.le_succ_of_le (Nat.le_of_eq (length_retire frames))

theorem length_retireFinished_le (m : Machine) : m.retireFinished.frames.length ≤ m.frames.length := by
  unfold retireFinished
  split
  · exact Nat.le_refl _
  · split
    · exact length_retire_le m
    · exact Nat.le_refl _

/-- A call only opens a frame that there is room for. -/
theorem Opens.length_frames_le (opens : Opens index m m') : m'.frames.length ≤ m.maxDepth := by
  cases opens with
  | first idle known room none => exact Nat.lt_of_le_of_lt (Nat.zero_le _) room
  | nested frames known room count taken =>
    rw [frames] at room
    exact room

namespace Limited

variable {n k : Nat} {e : Error}

theorem starts {args : List Value} (limited : m.Limited n k) (first : 0 < k)
    (starts : start index args m = .ok () m') : m'.Limited n k := by
  obtain ⟨-, f, -, -, rfl⟩ := start_eq_ok_iff.mp starts
  exact ⟨limited.maxDepth, first⟩

theorem opens (limited : m.Limited n k) (le : n ≤ k) (opens : Opens index m m') : m'.Limited n k where
  maxDepth := (SameSetup.opens opens).maxDepth.trans limited.maxDepth
  frames := Nat.le_trans opens.length_frames_le (limited.maxDepth ▸ le)

theorem advances (limited : m.Limited n k) (le : n ≤ k) (advances : Advances m m') : m'.Limited n k := by
  refine ⟨(SameSetup.advances advances).maxDepth.trans limited.maxDepth, ?_⟩
  cases advances with
  | rests => exact limited.frames
  | retires => exact Nat.le_trans (length_retire_le m) limited.frames
  | acts frames next moves =>
    apply Nat.le_trans (length_retireFinished_le _)
    have within := limited.frames
    rw [frames] at within
    exact within
  | calls frames next opened =>
    apply Nat.le_trans (length_retireFinished_le _)
    apply Nat.le_trans opened.length_frames_le
    exact limited.maxDepth ▸ le

theorem of_step_error (limited : m.Limited n k) (failed : step m = .error e m') : m'.Limited n k := by
  obtain ⟨f, callers, i, stack, frames, next, rfl⟩ := step_error failed
  have within := limited.frames
  rw [frames] at within
  exact ⟨limited.maxDepth, within⟩

theorem steps {j : Nat} (limited : m.Limited n k) (le : n ≤ k) (steps : Steps j m m') : m'.Limited n k :=
  steps.preserves (fun _ _ advanced within => within.advances le advanced) limited

theorem traps {j : Nat} (limited : m.Limited n k) (le : n ≤ k) (traps : Traps j m e m') : m'.Limited n k := by
  obtain ⟨last, steps, failed⟩ := traps
  exact (limited.steps le steps).of_step_error failed

end Limited

end Machine

namespace Operation

/-- Whether an operation starts a run with arguments of its own. -/
def startsRun : Operation → Bool
  | start _ _ | invoke _ _ => true
  | _ => false

/-- Whether an operation changes how many frames there may be. -/
def setsMaxDepth : Operation → Bool
  | withMaxDepth _ => true
  | _ => false

open Machine

variable {op : Operation} {m m' : Machine} {n k : Nat}

private theorem limited_invoke? {fuel : Nat} {index : UInt32} {args : List Value}
    {result : EStateM.Result Error Machine (List Value)} (limited : m.Limited n k) (le : n ≤ k) (first : 0 < k)
    (ended : m.invoke? fuel index args = some result) : (left result).Limited n k := by
  cases invoked_of_invoke? ended with
  | refused => exact limited
  | returned starts finishes =>
    have last := (limited.starts first starts).steps le finishes.1
    exact ⟨last.maxDepth, last.frames⟩
  | trapped starts traps => exact (limited.starts first starts).traps le traps

/-- No operation takes a machine beyond a bound on its frames that the limit does not exceed, if there is room for
the first frame of the runs that it starts. -/
theorem limited {fuel : Nat} {trapped : Bool} (performed : op.perform? fuel m = some (trapped, m'))
    (kept : op.setsMaxDepth = false) (limited : m.Limited n k) (le : n ≤ k) (first : op.startsRun = true → 0 < k) :
    m'.Limited n k := by
  cases op with
  | withMaxDepth depth => cases kept
  | addFunction | addGlobal | takeResults =>
    cases performed
    exact ⟨limited.maxDepth, limited.frames⟩
  | addExport name index =>
    cases performed
    unfold Machine.addExport
    split_ifs <;> exact ⟨limited.maxDepth, limited.frames⟩
  | reset =>
    cases performed
    exact ⟨limited.maxDepth, Nat.zero_le k⟩
  | start index args =>
    cases performed
    cases started : m.start index args with
    | ok _ m' => exact limited.starts (first rfl) started
    | error e m' =>
      obtain rfl := start_error started
      exact limited
  | invoke index args =>
    simp only [perform?] at performed
    split_ifs at performed with refused
    · cases performed
      cases started : m.start index args with
      | ok _ m' => exact limited.starts (first rfl) started
      | error e m' =>
        obtain rfl := start_error started
        exact limited
    · obtain ⟨result, ended, same⟩ := Option.map_eq_some_iff.mp performed
      cases same
      exact limited_invoke? limited le (first rfl) ended
  | call index =>
    cases performed
    cases called : m.call index with
    | ok _ m' => exact limited.opens le (call_eq_ok_iff.mp called)
    | error e m' =>
      rcases call_error called with rfl | ⟨-, rfl⟩
      · exact limited
      · exact ⟨limited.maxDepth, limited.frames⟩
  | step =>
    cases performed
    cases head : m.step with
    | ok _ m' => exact limited.advances le (step_eq_ok_iff.mp head)
    | error e m' => exact limited.of_step_error head
  | run =>
    obtain ⟨result, ended, same⟩ := Option.map_eq_some_iff.mp performed
    cases same
    have spec := run?_spec fuel m
    rw [ended] at spec
    cases result with
    | ok _ m' =>
      obtain ⟨j, -, steps, -⟩ := spec
      exact limited.steps le steps
    | error e m' =>
      obtain ⟨j, -, traps⟩ := spec
      exact limited.traps le traps
  | runSteps limit =>
    cases performed
    have spec := runSteps_spec limit m
    cases ended : m.runSteps limit with
    | ok finished m' =>
      rw [ended] at spec
      obtain ⟨-, j, -, steps, -⟩ := spec
      exact limited.steps le steps
    | error e m' =>
      rw [ended] at spec
      obtain ⟨j, -, traps⟩ := spec
      exact limited.traps le traps

end Operation

theorem History.limited {ops : List Operation} {m m' : Machine} {n k : Nat} (history : History ops m m')
    (kept : ∀ op ∈ ops, op.setsMaxDepth = false) (limited : m.Limited n k) (le : n ≤ k)
    (first : ∀ op ∈ ops, op.startsRun = true → 0 < k) : m'.Limited n k := by
  induction history with
  | nil => exact limited
  | cons fuel head _ ih =>
    obtain ⟨keptHead, keptTail⟩ := List.forall_mem_cons.mp kept
    obtain ⟨firstHead, firstTail⟩ := List.forall_mem_cons.mp first
    exact ih keptTail (Operation.limited head keptHead limited le firstHead) firstTail

namespace Machine

/-- Whoever waits for longer than it takes a run to trap sees it trap. -/
theorem Traps.answers {k limit : Nat} {m left : Machine} {e : Error} (traps : Traps k m e left)
    (longer : k < limit) : runSteps limit m = .error e left ∧ run? limit m = some (.error e left) := by
  have ends : EndsIn (k + 1) m (.error e left) := ⟨k, rfl, traps⟩
  exact ⟨ends.runSteps_of_le longer, run?_eq_some_iff.mpr ⟨k + 1, longer, ends⟩⟩

/-- Whatever is done to a machine that was idle when its limit on frames was last set, there are never more
frames than the limit says, unless it says none and a run is started all the same, which gives one frame. A call
for which there is no room fails for that reason, and only such a call does, whether it is made from outside or
by the active frame; and whoever waits for the end of a run that comes to such a call sees it fail. -/
theorem length_frames_le_of_history {m m' : Machine} {n : Nat} {ops : List Operation} (idle : m.frames = [])
    (history : History ops (m.withMaxDepth n) m') (last : ∀ op ∈ ops, op.setsMaxDepth = false) :
    m'.maxDepth = n ∧ (0 < n ∨ (∀ op ∈ ops, op.startsRun = false) → m'.frames.length ≤ n) ∧
      m'.frames.length ≤ max n 1 ∧
      (∀ index left, call index m' = .error .callDepthExhausted left ↔
        index.toNat < m'.functions.length ∧ n ≤ m'.frames.length ∧ left = m') ∧
      (∀ left, step m' = .error .callDepthExhausted left ↔ m'.Overflows left) ∧
      (∀ k full left, Steps k m' full → full.Overflows left → ∀ limit, k < limit →
        runSteps limit m' = .error .callDepthExhausted left ∧
        run? limit m' = some (.error .callDepthExhausted left)) ∧
      ∀ index args started k full left, start index args m' = .ok () started → Steps k started full →
        full.Overflows left → ∀ fuel, k < fuel →
          invoke? fuel index args m' = some (.error .callDepthExhausted left) := by
  have initial (k : Nat) : (m.withMaxDepth n).Limited n k := by
    refine ⟨rfl, ?_⟩
    rw [withMaxDepth, idle]
    exact Nat.zero_le k
  have oneMore : m'.Limited n (max n 1) := history.limited last (initial _) (Nat.le_max_left n 1)
    fun _ _ _ => Nat.lt_of_lt_of_le Nat.zero_lt_one (Nat.le_max_right n 1)
  have traps {k : Nat} {before full left : Machine} (steps : Steps k before full) (overflows : full.Overflows left) :
      Traps k before .callDepthExhausted left := ⟨full, steps, step_eq_exhausted_iff.mpr overflows⟩
  refine ⟨oneMore.maxDepth, ?_, oneMore.frames, ?_, fun left => step_eq_exhausted_iff, ?_, ?_⟩
  · intro room
    have limited : m'.Limited n n := by
      apply history.limited last (initial n) (Nat.le_refl n)
      intro op member starts
      rcases room with positive | never
      · exact positive
      · rw [never op member] at starts
        cases starts
    exact limited.frames
  · intro index left
    rw [call_eq_exhausted_iff, oneMore.maxDepth]
  · intro k full left steps overflows limit longer
    exact (traps steps overflows).answers longer
  · intro index args started k full left starts steps overflows fuel longer
    obtain ⟨-, ended⟩ := (traps steps overflows).answers longer
    simp only [invoke?, starts, ended]

/-- A machine whose only function calls itself. -/
def selfCalling : Machine := { functions := [{ body := #[.call 0] }] }

theorem length_frames_le_of_history_selfCalling :
    ∃ m' left, History [.start 0 [], .step, .takeResults] (selfCalling.withMaxDepth 2) m' ∧
      m'.frames.length ≤ 2 ∧ m'.Overflows left ∧ call 0 m' = .error .callDepthExhausted m' ∧
      run? 5 m' = some (.error .callDepthExhausted left) := by
  have reached : ∃ m' f caller, History [.start 0 [], .step, .takeResults] (selfCalling.withMaxDepth 2) m' ∧
      m'.frames = [f, caller] ∧ f.instruction? = some (.call 0) ∧ (0 : UInt32).toNat < m'.functions.length ∧
      2 ≤ m'.frames.length :=
    ⟨_, _, _, .cons 0 rfl (.cons 0 rfl (.cons 0 rfl (.nil _))), rfl, rfl, by decide, by decide⟩
  obtain ⟨m', f, caller, history, frames, next, known, full⟩ := reached
  obtain ⟨maxDepth, bound, -, calls, -, runs, -⟩ := length_frames_le_of_history rfl history (by decide)
  have overflows := Overflows.intro frames next known (maxDepth ▸ full)
  refine ⟨m', _, history, bound (.inl (by decide)), overflows, ?_, ?_⟩
  · exact (calls 0 m').mpr ⟨known, full, rfl⟩
  · exact (runs 0 m' _ (.refl m') overflows 5 (by decide)).2

/-- A run can be started on a machine that allows no frames, although a call of the same function is refused
there. -/
theorem start_beyond_maxDepth :
    ∃ m', History [.start 0 []] (selfCalling.withMaxDepth 0) m' ∧ m'.maxDepth = 0 ∧ m'.frames.length = 1 ∧
      call 0 (selfCalling.withMaxDepth 0) = .error .callDepthExhausted (selfCalling.withMaxDepth 0) :=
  ⟨_, .cons 0 rfl (.nil _), rfl, rfl, rfl⟩

end Machine

end ScopeMachine
