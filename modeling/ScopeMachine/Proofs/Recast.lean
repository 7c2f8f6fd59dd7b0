import Mathlib.Data.List.Forall2
import ScopeMachine.Proofs.Jump
import ScopeMachine.Proofs.Shape

/-! # Frames recast

A function may be replaced by another one whose scopes have the same boundaries, and the scopes that a frame has
open may get other types. `Frame.recast` does both, and an instruction does not notice: what it does to the
recast frame is what it does to the original one, recast (`Instruction.effect_recast`).
-/

namespace ScopeMachine

/-- The same outcome with a changed state. -/
def onState {α σ : Type} (change : σ → σ) : EStateM.Result Error σ α → EStateM.Result Error σ α
  | .ok a s => .ok a (change s)
  | .error e s => .error e (change s)

/-- The same instruction with another type of the scope that it opens. -/
def Instruction.retyped (retype : BlockType → BlockType) : Instruction → Instruction
  | enter kind type => enter kind (retype type)
  | i => i

@[simp] theorem Instruction.retyped_id (i : Instruction) : i.retyped id = i := by
  cases i <;> rfl

/-- The same scope with another type. -/
def Scope.retyped (retype : BlockType → BlockType) (s : Scope) : Scope := { s with type := retype s.type }

namespace Function

/-- Bodies of the same size in which all scopes have the same boundaries. -/
structure SameScopes (f g : Function) : Prop where
  size : g.size = f.size
  jumps : g.jumps = f.jumps

variable {f g : Function}

/-- Where scopes begin and end depends on no more of each instruction than what it makes of the boundaries ahead
of it. -/
theorem sameScopes_of_bodies {S : Instruction → Instruction → Prop}
    (bodies : List.Forall₂ S f.body.toList g.body.toList)
    (alike : ∀ i j, S i j → ∀ size pc (o : Jump.Outlook), o.before size pc j = o.before size pc i) :
    f.SameScopes g := by
  have size : g.body.size = f.body.size := bodies.length_eq.symm
  have outlooks (size pc : Nat) {left right : List Instruction} (bodies : List.Forall₂ S left right) :
      Jump.outlook size pc right = Jump.outlook size pc left := by
    induction bodies generalizing pc with
    | nil => rfl
    | cons head _ ih =>
      rw [Jump.outlook_cons, Jump.outlook_cons, ih]
      exact alike _ _ head _ _ _
  refine ⟨size, ?_⟩
  rw [f.jumps_eq, g.jumps_eq, Jump.table_eq_outlook, Jump.table_eq_outlook, size, outlooks _ _ bodies]

theorem SameScopes.matchingElse (same : f.SameScopes g) (pc : Nat) : g.matchingElse pc = f.matchingElse pc := by
  unfold Function.matchingElse jump?
  rw [same.jumps]

theorem SameScopes.afterEnd (same : f.SameScopes g) (pc : Nat) : g.afterEnd pc = f.afterEnd pc := by
  unfold Function.afterEnd matchingEnd jump?
  rw [same.jumps, same.size]

end Function

section
variable (replace : Function → Function) (retype : BlockType → BlockType)

/-- The same frame of another function and with other types of its open scopes. -/
def Frame.recast (f : Frame) : Frame :=
  { f with function := replace f.function, inner := f.inner.map (Scope.retyped retype) }

/-- The same workspace with its frame recast. -/
def Workspace.recast (w : Workspace) : Workspace := { w with frame := w.frame.recast replace retype }

namespace Frame

variable (f : Frame)

theorem stack_recast : (f.recast replace retype).stack = f.stack := by
  obtain ⟨function, base, inner, locals, pc⟩ := f
  cases inner <;> rfl

theorem withStack_recast (s : OperandStack) :
    (f.recast replace retype).withStack s = (f.withStack s).recast replace retype := by
  obtain ⟨function, base, inner, locals, pc⟩ := f
  cases inner <;> rfl

variable {f} (same : f.function.SameScopes (replace f.function))
include same

theorem unwind_recast (n : Nat) :
    (f.recast replace retype).unwind n = (f.unwind n).recast replace retype := by
  simp only [unwind, recast, List.getElem?_map, List.map_drop, same.size]
  cases f.inner[n]? <;> rfl

theorem leave_recast : (f.recast replace retype).leave.2 = f.leave.2.recast replace retype := by
  obtain ⟨function, base, inner, locals, pc⟩ := f
  cases inner with
  | nil => exact congrArg (Frame.mk (replace function) base [] locals) same.size
  | cons => rfl

theorem enterBehind_recast (pc : Nat) (type : BlockType) :
    (f.recast replace retype).enter (retype type) ((replace f.function).afterEnd pc) =
      (f.enter type (f.function.afterEnd pc)).recast replace retype := by
  rw [same.afterEnd]
  rfl

theorem enterElse_recast (pc : Nat) (type : BlockType) :
    (f.recast replace retype).enterElse pc (retype type) = (f.enterElse pc type).recast replace retype := by
  have function : (f.recast replace retype).function = replace f.function := rfl
  rw [enterElse, enterElse, function, same.matchingElse, same.afterEnd]
  cases f.function.matchingElse pc <;> rfl

end Frame

namespace Workspace

variable (w : Workspace)

theorem operands_recast : (w.recast replace retype).operands = w.operands := by
  unfold operands
  rw [recast, Frame.stack_recast]
  rfl

theorem withOperands_recast (o : Operands) :
    (w.recast replace retype).withOperands o = (w.withOperands o).recast replace retype :=
  congrArg (Workspace.mk · o.globals)
    (Frame.withStack_recast replace retype { w.frame with locals := o.locals } o.stack)

theorem withStack_recast (s : OperandStack) :
    { w.recast replace retype with frame := (w.recast replace retype).frame.withStack s } =
      recast replace retype { w with frame := w.frame.withStack s } :=
  congrArg (Workspace.mk · w.globals) (w.frame.withStack_recast replace retype s)

end Workspace

namespace Instruction

open Workspace (withOperands_recast operands_recast)

variable {replace retype} {w : Workspace} {pc : Nat}

private theorem plain_recast {i : Instruction} (plain : i.isPlain = true) :
    i.effect pc (w.recast replace retype) = onState (Workspace.recast replace retype) (i.effect pc w) := by
  rw [effect_of_isPlain plain, effect_of_isPlain plain, operands_recast]
  cases i.compute w.operands with
  | ok _ o => exact congrArg _ (withOperands_recast replace retype w o)
  | error e o => exact congrArg _ (withOperands_recast replace retype w o)

private theorem br_recast {label : UInt32} (same : w.frame.function.SameScopes (replace w.frame.function)) :
    (br label).effect pc (w.recast replace retype) =
      onState (Workspace.recast replace retype) ((br label).effect pc w) := by
  have length : (w.frame.recast replace retype).inner.length = w.frame.inner.length := List.length_map ..
  simp only [effect_br, Workspace.recast, Frame.branch_eq, length]
  by_cases within : label.toNat ≤ w.frame.inner.length
  · simp only [within, ↓reduceIte, Frame.unwind_recast replace retype same]
    rfl
  · simp only [within, ↓reduceIte]
    rfl

private theorem ok_recast {f f' : Frame} (same : f' = f.recast replace retype) (globals : List Value) :
    EStateM.Result.ok () { frame := f', globals } =
      onState (Workspace.recast replace retype) (.ok () { frame := f, globals }) := by
  rw [same]
  rfl

/-- What an instruction does to the active frame depends on the function by its scopes only, and not on any
types. -/
theorem effect_recast (pc : Nat) (i : Instruction) (same : w.frame.function.SameScopes (replace w.frame.function)) :
    (i.retyped retype).effect pc (w.recast replace retype) =
      onState (Workspace.recast replace retype) (i.effect pc w) := by
  have stack : (w.recast replace retype).frame.stack = w.frame.stack := w.frame.stack_recast replace retype
  have still (s : OperandStack) :
      (w.frame.withStack s).function.SameScopes (replace (w.frame.withStack s).function) := by
    rwa [Frame.function_withStack]
  cases i with
  | enter kind type =>
    rw [retyped]
    cases kind with
    | loop => rfl
    | block => exact ok_recast (Frame.enterBehind_recast replace retype same pc type) w.globals
    | cond =>
      rw [effect_cond, effect_cond, stack]
      cases w.frame.stack.topFirst with
      | nil => rfl
      | cons v below =>
        -- The condition is taken first, so the scope is opened in the frame without it.
        have own : (w.frame.withStack ⟨below⟩).function = w.frame.function := Frame.function_withStack _ _
        dsimp only [Workspace.recast]
        rw [Frame.withStack_recast]
        by_cases zero : v = 0
        · simp only [zero, ne_eq, not_true_eq_false, ↓reduceIte]
          exact ok_recast (Frame.enterElse_recast replace retype (still _) pc type) w.globals
        · simp only [zero, ne_eq, not_false_eq_true, ↓reduceIte]
          have entered := Frame.enterBehind_recast replace retype (still ⟨below⟩) pc type
          rw [own] at entered
          exact ok_recast entered w.globals
  | otherwise =>
    have exits : (w.frame.recast replace retype).exit = w.frame.exit.recast replace retype := by
      rw [Frame.exit_eq_unwind, Frame.unwind_recast replace retype same, Frame.exit_eq_unwind]
    exact ok_recast exits w.globals
  | close => exact ok_recast (Frame.leave_recast replace retype same) w.globals
  | br label => exact br_recast same
  | brIf label =>
    change (brIf label).effect pc (w.recast replace retype) = _
    rw [effect_brIf, effect_brIf, stack]
    cases w.frame.stack.topFirst with
    | nil => rfl
    | cons v below =>
      dsimp only
      rw [Workspace.withStack_recast]
      split
      · exact br_recast (still _)
      · rfl
  | call => rfl
  | _ => exact plain_recast rfl

end Instruction

end

end ScopeMachine
