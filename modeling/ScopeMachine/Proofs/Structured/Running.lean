import ScopeMachine.Proofs.Holding
import ScopeMachine.Proofs.Structured.Reference

/-! # Frames in front of structured code

A machine whose active frame stands in front of a laid out piece of code does what the meaning of that
code says: it arrives behind the code, leaves as many scopes, traps, or takes at least as many steps
as there was fuel. That is `Machine.Realizes`. A frame that reaches its end is retired by the step that
takes it there, so what is compared are the states after that (`Machine.settled`).
-/

namespace ScopeMachine

namespace Machine

variable {m : Machine} {callers : List Frame} {f : Frame} {pc : Nat} {o : Operands}

/-- How many frames there may be on top of the active one. -/
def room (m : Machine) (callers : List Frame) : Nat := m.maxDepth - (callers.length + 1)

/-- A call leaves room for one frame less. -/
theorem room_cons : m.room (f :: callers) = m.room callers - 1 := (Nat.sub_sub ..).symm

/-- The same machine after the step that has taken it there, which retires the frame if it is finished. -/
def settled (m : Machine) (callers : List Frame) (f : Frame) (pc : Nat) (o : Operands) : Machine :=
  (m.running callers f pc o).retireFinished

theorem settled_eq_running {i : Instruction} (here : f.function.body[pc]? = some i) :
    m.settled callers f pc o = m.running callers f pc o :=
  retireFinished_running here

/-- A machine whose active frame is finished retires it with its next step. -/
theorem exists_steps_retireFinished (busy : m.frames ≠ []) : ∃ k, Steps k m m.retireFinished := by
  cases frames : m.frames with
  | nil => exact (busy frames).elim
  | cons f callers =>
    by_cases finished : f.pc = f.function.size
    · have done : f.instruction? = none := Array.getElem?_eq_none (Nat.le_of_eq finished.symm)
      rw [retireFinished_of_end frames finished]
      exact ⟨1, .single busy (step_of_done frames done)⟩
    · rw [retireFinished_of_not_end frames finished]
      exact ⟨0, .refl m⟩

theorem steps_running (m : Machine) (callers : List Frame) {i : Instruction} {w : Workspace}
    (here : f.function.body[pc]? = some i)
    (moves : i.Moves pc { frame := f.holding (pc + 1) o, globals := o.globals } w) :
    Steps 1 (m.settled callers f pc o)
      (retireFinished { m with frames := w.frame :: callers, globals := w.globals }) := by
  rw [settled_eq_running here]
  have next : (f.holding pc o).instruction? = some i := by rw [Frame.instruction?_holding, here]
  refine .single (List.cons_ne_nil _ _) (step_eq_ok_iff.mpr (.acts rfl next ?_))
  rw [Frame.pc_holding, Frame.goto_holding]
  exact moves

theorem traps_running (m : Machine) (callers : List Frame) {i : Instruction} {w : Workspace} {e : Error}
    (here : f.function.body[pc]? = some i) (notCall : ∀ index, i ≠ .call index)
    (failed : i.effect pc { frame := f.holding (pc + 1) o, globals := o.globals } = .error e w) :
    Traps 0 (m.settled callers f pc o) e { m with frames := w.frame :: callers, globals := w.globals } := by
  rw [settled_eq_running here]
  have next : (f.holding pc o).instruction? = some i := by rw [Frame.instruction?_holding, here]
  refine ⟨_, .refl _, ?_⟩
  rw [step_of_effect rfl next notCall, Frame.pc_holding, Frame.goto_holding]
  simp only [running, failed]

/-- The machine with an active frame in front of a piece of code that reaches up to `finish` does what
the code is said to do. If that is nothing yet, it takes as many steps as there was fuel. -/
def Realizes (m : Machine) (callers : List Frame) (f : Frame) (pc : Nat) (o : Operands)
    (fuel finish : Nat) : Option Outcome → Prop
  | none => ∃ k m', fuel ≤ k ∧ Steps k (m.settled callers f pc o) m'
  | some (.normal o') => ∃ k, Steps k (m.settled callers f pc o) (m.settled callers f finish o')
  | some (.leaves label o') => label ≤ f.inner.length ∧
      ∃ k, Steps k (m.settled callers f pc o)
        (retireFinished { m with
          frames := (f.holding finish o').unwind label :: callers, globals := o'.globals })
  | some (.traps e globals) => ∃ k m', Traps k (m.settled callers f pc o) e m' ∧ m'.globals = globals

namespace Realizes

variable {fuel fuel' finish : Nat}

/-- Steps to a machine that does what the code is said to do come before what it does. -/
theorem after {k pc' : Nat} {o' : Operands} {result : Option Outcome}
    (steps : Steps k (m.settled callers f pc o) (m.settled callers f pc' o'))
    (later : Realizes m callers f pc' o' fuel' finish result) (enough : fuel ≤ fuel' + k) :
    Realizes m callers f pc o fuel finish result := by
  match result, later with
  | none, ⟨n, m', many, further⟩ => exact ⟨k + n, m', by omega, steps.append further⟩
  | some (.normal _), ⟨n, further⟩ => exact ⟨k + n, steps.append further⟩
  | some (.leaves _ _), ⟨within, n, further⟩ => exact ⟨within, k + n, steps.append further⟩
  | some (.traps _ _), ⟨n, m', traps, same⟩ => exact ⟨k + n, m', .append steps traps, same⟩

/-- A scope does what is said of it if its body does, if its end leads behind it, and if the code goes
on as said both from there and from where a branch to it continues. -/
theorem scope {start last target behind : Nat} {type : BlockType} {entry : Operands}
    {result : Option Outcome} {next left : Operands → Option Outcome} {around : OperandStack}
    (enters : Steps 1 (m.settled callers f pc o) (m.settled callers (f.inside type target around) start entry))
    (body : Realizes m callers (f.inside type target around) start entry fuel last result)
    (ends : ∀ o', Steps 1 (m.settled callers (f.inside type target around) last o')
      (m.settled callers f behind { o' with stack := around }))
    (goesOn : ∀ o', Realizes m callers f behind o' fuel finish (next o'))
    (branches : ∀ o', Realizes m callers f target o' fuel' finish (left o')) (enough : fuel ≤ fuel' + 1) :
    Realizes m callers f pc o fuel finish (result.bind (Outcome.afterScope around next left)) := by
  match result, body with
  | none, ⟨n, m', many, steps⟩ => exact ⟨1 + n, m', by omega, enters.append steps⟩
  | some (.normal o'), ⟨n, steps⟩ =>
    exact (goesOn _).after ((enters.append steps).append (ends o')) (by omega)
  | some (.leaves 0 o'), ⟨_, n, steps⟩ =>
    rw [Frame.unwind_zero_holding] at steps
    exact (branches _).after (enters.append steps) (by omega)
  | some (.leaves (label + 1) o'), ⟨within, n, steps⟩ =>
    rw [Frame.unwind_succ_holding] at steps
    rw [Frame.length_inner_inside] at within
    exact ⟨Nat.le_of_succ_le_succ within, 1 + n, enters.append steps⟩
  | some (.traps _ _), ⟨n, m', traps, same⟩ => exact ⟨1 + n, m', .append enters traps, same⟩

end Realizes

/-- A machine retires its active frame with the values of an answer, or traps as the answer says. -/
def Answers (m : Machine) (callers : List Frame) (start : Machine) : Answer → Prop
  | .returns values globals =>
    ∃ k last, Steps k start (retire { m with frames := last :: callers, globals }) ∧ last.results = values
  | .traps e globals => ∃ k m', Traps k start e m' ∧ m'.globals = globals

/-- What is said of a whole body gives the answer of its frame: outside of all scopes a branch does no
more than finish the frame. -/
theorem Realizes.answers {fuel : Nat} {outcome : Outcome} (outermost : f.inner = [])
    (realizes : Realizes m callers f pc o fuel f.function.size (some outcome)) :
    Answers m callers (m.settled callers f pc o) outcome.answer := by
  have retires (o' : Operands) : m.settled callers f f.function.size o' =
      retire { m with frames := f.holding f.function.size o' :: callers, globals := o'.globals } := by
    have finished : (f.holding f.function.size o').pc = (f.holding f.function.size o').function.size := by
      rw [Frame.pc_holding, Frame.function_holding]
    exact retireFinished_of_end rfl finished
  have results (o' : Operands) : (f.holding f.function.size o').results = o'.stack.toList := by
    rw [Frame.results, Frame.stack_holding]
  cases outcome with
  | normal o' =>
    obtain ⟨k, steps⟩ := realizes
    exact ⟨k, _, retires o' ▸ steps, results o'⟩
  | leaves label o' =>
    obtain ⟨within, k, steps⟩ := realizes
    have last : (f.holding f.function.size o').unwind label = f.holding f.function.size o' := by
      rw [outermost] at within
      obtain rfl := Nat.le_zero.mp within
      obtain ⟨function, base, inner, locals, old⟩ := f
      cases outermost
      rfl
    rw [last] at steps
    exact ⟨k, _, retires o' ▸ steps, results o'⟩
  | traps e globals => exact realizes

/-- A machine that runs a whole body above some callers retires its frame as the end of the body says.
If there is no end yet, it takes as many steps as there was fuel. -/
def Completes (m : Machine) (callers : List Frame) (fuel : Nat) (start : Machine) : Option Outcome → Prop
  | none => ∃ k m', fuel ≤ k ∧ Steps k start m'
  | some outcome => Answers m callers start outcome.answer

theorem Realizes.completes {fuel : Nat} {result : Option Outcome} (outermost : f.inner = [])
    (realizes : Realizes m callers f pc o fuel f.function.size result) :
    m.Completes callers fuel (m.settled callers f pc o) result := by
  cases result with
  | none => exact realizes
  | some outcome => exact realizes.answers outermost

/-- A frame that is retired leaves its results on top of its caller's operands. -/
theorem retire_holding (m : Machine) (last : Frame) (s : OperandStack) (globals : List Value) :
    retire { m with frames := last :: f.holding pc { o with stack := s } :: callers, globals } =
      m.running callers f pc { o with stack := s.extend last.results, globals } := by
  have extended : (f.holding pc { o with stack := s }).extend last.results =
      f.holding pc { o with stack := s.extend last.results } := by
    rw [Frame.extend, Frame.stack_holding, Frame.withStack_holding]
  exact congrArg (fun caller => { m with frames := caller :: callers, globals }) extended

/-- A call does what is said of it if the callee does and the code goes on as said with all that the
callee leaves. -/
theorem Realizes.call {fuel finish : Nat} {start : Machine} {below : OperandStack} {result : Option Outcome}
    {next : Operands → Option Outcome} (enters : Steps 1 (m.settled callers f pc o) start)
    (completes : m.Completes (f.holding (pc + 1) { o with stack := below } :: callers) fuel start result)
    (goesOn : ∀ o', Realizes m callers f (pc + 1) o' (fuel + 1) finish (next o')) :
    Realizes m callers f pc o (fuel + 1) finish
      (result.bind (Outcome.afterCall { o with stack := below } next)) := by
  cases result with
  | none =>
    obtain ⟨k, m', many, steps⟩ := completes
    exact ⟨1 + k, m', by omega, enters.append steps⟩
  | some outcome =>
    have answers : Answers _ _ _ outcome.answer := completes
    change Realizes _ _ _ _ _ _ _ (Outcome.afterCall _ _ outcome)
    unfold Outcome.afterCall
    cases answer : outcome.answer with
    | traps e globals =>
      rw [answer] at answers
      obtain ⟨k, m', traps, same⟩ := answers
      exact ⟨1 + k, m', .append enters traps, same⟩
    | returns values globals =>
      rw [answer] at answers
      obtain ⟨k, last, steps, rfl⟩ := answers
      rw [retire_holding] at steps
      obtain ⟨j, settles⟩ := exists_steps_retireFinished
        (m := m.running callers f (pc + 1) { o with stack := below.extend last.results, globals })
        (List.cons_ne_nil _ _)
      exact (goesOn _).after ((enters.append steps).append settles) (by omega)

end Machine

end ScopeMachine
