import ScopeMachine.Proofs.Effect
import ScopeMachine.Proofs.Jump

/-! # Structured code

`Code` is code in which scopes are nested as a tree, and `Code.flatten` lays it out as a body of
instructions. Laid out, a piece of code closes every scope that it opens, so it does not show in what
lies ahead of it (`ahead_flatten`), and the jump table leads from every opener to the closing
instruction and the alternative of its own scope.
-/

namespace ScopeMachine

/-- A sequence of statements, the last of them `nil`. -/
inductive Code where
  | nil
  | plain (i : Instruction) (isPlain : i.isPlain = true) (rest : Code)
  | br (label : UInt32) (rest : Code)
  | brIf (label : UInt32) (rest : Code)
  | call (index : UInt32) (rest : Code)
  /-- A block, a loop or a condition without an alternative. -/
  | scope (kind : ScopeKind) (type : BlockType) (body rest : Code)
  /-- A condition with an alternative. -/
  | choice (type : BlockType) (body alternative rest : Code)
  deriving DecidableEq, Repr

namespace Code

/-- The instructions of a piece of code. -/
def flatten : Code → List Instruction
  | nil => []
  | plain i _ rest => i :: rest.flatten
  | br label rest => .br label :: rest.flatten
  | brIf label rest => .brIf label :: rest.flatten
  | call index rest => .call index :: rest.flatten
  | scope kind type body rest => .enter kind type :: (body.flatten ++ .close :: rest.flatten)
  | choice type body alternative rest =>
    .enter .cond type :: (body.flatten ++ .otherwise :: (alternative.flatten ++ .close :: rest.flatten))

end Code

/-- A function in structured form. -/
structure Procedure where
  params : List ValueType := []
  results : List ValueType := []
  locals : List ValueType := []
  body : Code
  deriving DecidableEq, Repr

/-- The function with the procedure's body laid out. -/
def Procedure.function (p : Procedure) : Function :=
  { params := p.params, results := p.results, locals := p.locals, body := p.body.flatten.toArray }

namespace Function

variable {f : Function} {pc : Nat} {i : Instruction} {code tail : List Instruction}

/-- The instructions from a position on. -/
def codeFrom (f : Function) (pc : Nat) : List Instruction := f.body.toList.drop pc

theorem getElem?_of_codeFrom (here : f.codeFrom pc = i :: tail) : f.body[pc]? = some i := by
  rw [← Array.getElem?_toList, ← List.head?_drop]
  exact congrArg List.head? here

theorem codeFrom_add (here : f.codeFrom pc = code ++ tail) : f.codeFrom (pc + code.length) = tail := by
  rw [codeFrom, ← List.drop_drop]
  exact (congrArg (List.drop code.length) here).trans List.drop_left

theorem codeFrom_succ (here : f.codeFrom pc = i :: tail) : f.codeFrom (pc + 1) = tail :=
  codeFrom_add (show f.codeFrom pc = [i] ++ tail from here)

/-- What is ahead of a piece of code is ahead of what comes after it. -/
theorem ahead_flatten (c : Code) (here : f.codeFrom pc = c.flatten ++ tail) (k : Nat) :
    f.ahead pc k = f.ahead (pc + c.flatten.length) k := by
  induction c generalizing pc tail k with
  | nil => rfl
  | plain i isPlain rest ih =>
    have keeps : i.keepsScopes = true := by
      cases i with
      | enter | otherwise | close => cases isPlain
      | _ => rfl
    rw [ahead_of_keepsScopes (getElem?_of_codeFrom here) keeps, ih (codeFrom_succ here), Code.flatten,
      List.length_cons, Nat.add_right_comm, Nat.add_assoc]
  | br label rest ih | brIf label rest ih | call index rest ih =>
    rw [ahead_of_keepsScopes (getElem?_of_codeFrom here) rfl, ih (codeFrom_succ here), Code.flatten,
      List.length_cons, Nat.add_right_comm, Nat.add_assoc]
  | scope kind type body rest ihBody ihRest =>
    rw [Code.flatten, List.cons_append, List.append_assoc] at here
    have inside := codeFrom_succ here
    have closing := codeFrom_add inside
    rw [ahead_enter (getElem?_of_codeFrom here), ihBody inside, ahead_close_succ (getElem?_of_codeFrom closing),
      ihRest (codeFrom_succ closing), Code.flatten]
    congr 1
    simp only [List.length_cons, List.length_append]
    omega
  | choice type body alternative rest ihBody ihAlternative ihRest =>
    rw [Code.flatten, List.cons_append, List.append_assoc, List.cons_append, List.append_assoc] at here
    have inside := codeFrom_succ here
    have turning := codeFrom_add inside
    have alternate := codeFrom_succ turning
    have closing := codeFrom_add alternate
    rw [ahead_enter (getElem?_of_codeFrom here), ihBody inside,
      ahead_otherwise_succ (getElem?_of_codeFrom turning), ihAlternative alternate,
      ahead_close_succ (getElem?_of_codeFrom closing), ihRest (codeFrom_succ closing), Code.flatten]
    congr 1
    simp only [List.length_cons, List.length_append]
    omega

/-- In front of a closing instruction with a piece of code before it, the innermost scope ends there. -/
theorem ahead_zero_of_close {c : Code} (here : f.codeFrom pc = c.flatten ++ .close :: tail) :
    f.ahead pc 0 = { endPc := pc + c.flatten.length } := by
  rw [ahead_flatten c here, ahead_close_zero (getElem?_of_codeFrom (codeFrom_add here))]

theorem afterEnd_of_matchingEnd (ends : f.matchingEnd pc < f.size) : f.afterEnd pc = f.matchingEnd pc + 1 :=
  Nat.min_eq_left ends

section Scope

variable {kind : ScopeKind} {type : BlockType} {body : Code}
  (here : f.codeFrom pc = .enter kind type :: (body.flatten ++ .close :: tail))
include here

theorem afterEnd_scope : f.afterEnd pc = pc + 1 + body.flatten.length + 1 := by
  have inside := codeFrom_succ here
  have closing := getElem?_of_codeFrom (codeFrom_add inside)
  have ends : f.matchingEnd pc = pc + 1 + body.flatten.length := by
    rw [matchingEnd_enter (getElem?_of_codeFrom here), ahead_zero_of_close inside]
  rw [afterEnd_of_matchingEnd (ends ▸ (Array.getElem?_eq_some_iff.mp closing).1), ends]

theorem matchingElse_scope : f.matchingElse pc = none := by
  rw [matchingElse, jump?_enter (getElem?_of_codeFrom here), ahead_zero_of_close (codeFrom_succ here)]
  exact ite_self none

end Scope

section Choice

variable {type : BlockType} {body alternative : Code}
  (here : f.codeFrom pc =
    .enter .cond type :: (body.flatten ++ .otherwise :: (alternative.flatten ++ .close :: tail)))
include here

private theorem ahead_zero_of_choice : f.ahead (pc + 1) 0 =
    { elsePc := some (pc + 1 + body.flatten.length)
      endPc := pc + 1 + body.flatten.length + 1 + alternative.flatten.length } := by
  have inside := codeFrom_succ here
  have turning := codeFrom_add inside
  rw [ahead_flatten body inside, ahead_otherwise_zero (getElem?_of_codeFrom turning),
    ahead_zero_of_close (codeFrom_succ turning)]
  rfl

theorem afterEnd_choice :
    f.afterEnd pc = pc + 1 + body.flatten.length + 1 + alternative.flatten.length + 1 := by
  have turning := codeFrom_add (codeFrom_succ here)
  have closing := getElem?_of_codeFrom (codeFrom_add (codeFrom_succ turning))
  have ends : f.matchingEnd pc = pc + 1 + body.flatten.length + 1 + alternative.flatten.length := by
    rw [matchingEnd_enter (getElem?_of_codeFrom here), ahead_zero_of_choice here]
  rw [afterEnd_of_matchingEnd (ends ▸ (Array.getElem?_eq_some_iff.mp closing).1), ends]

theorem matchingElse_choice : f.matchingElse pc = some (pc + 1 + body.flatten.length) := by
  rw [matchingElse_cond (getElem?_of_codeFrom here), ahead_zero_of_choice here]

end Choice

end Function

end ScopeMachine
