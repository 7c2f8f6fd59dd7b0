import ScopeMachine.Proofs.Shape

/-! # Leaving scopes one by one

A branch leaves all scopes up to the one that its label names at once. It comes to the same frame as leaving the
innermost scope again and again, except that leaving a scope does not move the frame and a branch goes on at the
target of the last scope that is left (`Frame.unwind_eq_leaveTimes`). The function body takes part in this as a scope
that is never left: the last time, it answers by finishing the frame. `Frame.Reached` are the frames that come about
by what can be done to a frame from outside, and the function body is the outermost scope of all of them.
-/

namespace ScopeMachine.Frame

/-- What can be done to a frame from outside. -/
inductive Change where
  | push (v : Value)
  | pop
  | enter (type : BlockType) (target : Nat)
  | leave
  | branch (label : UInt32)
  | goto (pc : Nat)
  deriving DecidableEq, Repr

namespace Change

/-- The changed frame, if the change succeeds. -/
def result : Change → Frame → Except Error Frame
  | push v, f => .ok (f.push v)
  | pop, f => f.pop.map Prod.snd
  | enter type target, f => .ok (f.enter type target)
  | leave, f => .ok f.leave.2
  | branch label, f => f.branch label
  | goto pc, f => .ok (f.goto pc)

/-- The frame that a change leaves behind; one that fails leaves the frame as it was. -/
def left (c : Change) (f : Frame) : Frame := (c.result f).toOption.getD f

end Change

/-- The frames that come about from a new frame of a function, whatever becomes of each change. -/
inductive Reached (fn : Function) : Frame → Prop
  | fresh : Reached fn (ofFunction fn)
  | next {f : Frame} (c : Change) (before : Reached fn f) : Reached fn (c.left f)

theorem function_leave (f : Frame) : f.leave.2.function = f.function := by
  unfold leave
  cases f.inner <;> rfl

/-- A frame stays one of its function. -/
theorem function_left (c : Change) (f : Frame) : (c.left f).function = f.function := by
  cases c with
  | push v => exact function_withStack _ f
  | pop =>
    simp only [Change.left, Change.result, pop]
    cases f.stack.pop with
    | ok taken => exact function_withStack _ f
    | error e => rfl
  | leave => exact function_leave f
  | branch label =>
    simp only [Change.left, Change.result, branch_eq]
    split <;> rfl
  | enter | goto => rfl

theorem Reached.function {fn : Function} {f : Frame} (reached : Reached fn f) : f.function = fn := by
  induction reached with
  | fresh => rfl
  | next c _ ih => rw [function_left, ih]

/-- Leaves the innermost scope `n` times and answers with what has been left the last time. -/
def leaveTimes : Nat → Frame → Option Scope × Frame
  | 0, f => (none, f)
  | n + 1, f => (leaveTimes n f).2.leave

variable {f : Frame} {n : Nat}

/-- As long as there are scopes that can be left, nothing else is changed. -/
theorem snd_leaveTimes (within : n ≤ f.inner.length) :
    (f.leaveTimes n).2 = { f with inner := f.inner.drop n } := by
  induction n with
  | zero => rfl
  | succ n ih =>
    have rest : f.inner.drop n = f.inner[n] :: f.inner.drop (n + 1) := List.drop_eq_getElem_cons within
    rw [leaveTimes, ih (Nat.le_of_succ_le within), leave, rest]

/-- The last scope that is left is the one with that number from the inside. If there is none, all scopes that can be
left have been left, and the frame is finished. -/
theorem leaveTimes_succ (within : n ≤ f.inner.length) :
    f.leaveTimes (n + 1) = (f.inner[n]?,
      { f with inner := f.inner.drop (n + 1), pc := f.inner[n]?.elim f.function.size fun _ => f.pc }) := by
  rw [leaveTimes, snd_leaveTimes within, leave, ← List.head?_drop, ← List.tail_drop]
  cases f.inner.drop n <;> rfl

/-- Leaving several scopes at once is leaving them one by one and then going on at the target of the last. -/
theorem unwind_eq_leaveTimes (within : n ≤ f.inner.length) :
    f.unwind n = (f.leaveTimes (n + 1)).2.goto ((f.leaveTimes (n + 1)).1.elim f.function.size Scope.target) := by
  rw [leaveTimes_succ within]
  rfl

/-- A frame has the function body as its outermost scope, whatever has been done to it, and so its depth is never
below one. A branch fails exactly if its label is not below the depth, and then it changes nothing. Otherwise it
comes to the frame that is left when the innermost scope is left once more than the label says, and goes on at the
target of the last of these scopes, or at the end of the body if that was the function body, which is kept with its
operands. -/
theorem branch_of_reached {fn : Function} (reached : Reached fn f) (label : UInt32) :
    1 ≤ f.depth ∧ f.scopes.length = f.depth ∧
      f.scopes.getLast? = some { stack := f.base, type := fn.blockType, target := fn.size } ∧
      (∀ e, f.branch label = .error e ↔ f.depth ≤ label.toNat ∧ e = .unknownLabel label) ∧
      (f.depth ≤ label.toNat → (Change.branch label).left f = f) ∧
      (label.toNat < f.depth → ∃ last g, f.leaveTimes (label.toNat + 1) = (last, g) ∧
        f.branch label = .ok (g.goto (last.elim fn.size Scope.target)) ∧
        (last = none ↔ label.toNat + 1 = f.depth) ∧ g.scopes = f.inner.drop (label.toNat + 1) ++ [f.root]) := by
  obtain rfl := reached.function
  have fails (e : Error) : f.branch label = .error e ↔ f.depth ≤ label.toNat ∧ e = .unknownLabel label :=
    branch_eq_error_iff
  refine ⟨Nat.le_add_left 1 _, f.length_scopes, List.getLast?_concat, fails, ?_, ?_⟩
  · intro beyond
    have refused := (fails _).mpr ⟨beyond, rfl⟩
    rw [Change.left, Change.result, refused]
    rfl
  · intro below
    have within : label.toNat ≤ f.inner.length := Nat.le_of_lt_succ below
    have branched : f.branch label = .ok (f.unwind label.toNat) := branch_eq_ok_iff.mpr ⟨within, rfl⟩
    refine ⟨(f.leaveTimes (label.toNat + 1)).1, (f.leaveTimes (label.toNat + 1)).2, rfl, ?_, ?_, ?_⟩
    · rw [branched, unwind_eq_leaveTimes within]
    · rw [leaveTimes_succ within, List.getElem?_eq_none_iff, depth]
      omega
    · rw [leaveTimes_succ within]
      rfl

/-- A function of which only the types and the length matter here. -/
def threeSteps : Function := { params := [.i32], body := #[.nop, .nop, .nop] }

/-- A frame with two scopes inside the function body, after a branch that is refused. -/
def nested : Frame :=
  { function := threeSteps, base := .ofList [1], inner := [{ stack := .ofList [2, 3], type := .empty, target := 1 },
      { type := .empty, target := 0 }], locals := [0], pc := 2 }

/-- Branches out of one scope, two scopes and the function body, and out of more than there is. -/
theorem branch_of_reached_nested :
    Reached threeSteps nested ∧ nested.depth = 3 ∧
      nested.branch 0 = .ok { nested with inner := nested.inner.tail, pc := 1 } ∧
      nested.branch 1 = .ok { nested with inner := [], pc := 0 } ∧
      nested.branch 2 = .ok { nested with inner := [], pc := 3 } ∧
      nested.branch 3 = .error (.unknownLabel 3) ∧ (Change.branch 3).left nested = nested := by
  have reached : Reached threeSteps nested :=
    .next (.goto 2) (.next (.branch 4) (.next (.push 3) (.next (.push 2) (.next (.enter .empty 1)
      (.next (.enter .empty 0) (.next (.push 1) .fresh))))))
  have out (label : UInt32) (below : label.toNat < nested.depth) :
      nested.branch label = .ok ((nested.leaveTimes (label.toNat + 1)).2.goto
        ((nested.leaveTimes (label.toNat + 1)).1.elim threeSteps.size Scope.target)) := by
    obtain ⟨-, -, -, -, -, left⟩ := branch_of_reached reached label
    obtain ⟨last, g, leaves, branched, -⟩ := left below
    rw [leaves]
    exact branched
  obtain ⟨-, -, -, fails, stays, -⟩ := branch_of_reached reached 3
  have beyond : nested.depth ≤ (3 : UInt32).toNat := by decide
  exact ⟨reached, rfl, out 0 (by decide), out 1 (by decide), out 2 (by decide), (fails _).mpr ⟨beyond, rfl⟩,
    stays beyond⟩

end ScopeMachine.Frame
