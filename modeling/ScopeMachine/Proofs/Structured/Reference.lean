import ScopeMachine.Proofs.Answer
import ScopeMachine.Proofs.Structured.Code

/-! # What structured code means

The meaning of structured code needs no positions, no jump table and no list of open scopes. A scope
runs its body on a stack of its own, which is thrown away when the scope is left, whereas the stack
around it stays as it was. A branch makes its way out of the scopes one by one until it has left the
one that it names, where the code goes on behind the scope or, if that is a loop, starts it again.
Loops may restart forever and calls may nest forever, so a run has some fuel, of which one unit is
used up by each restart and by each call. Within that, the meaning is given by recursion on the code.
-/

namespace ScopeMachine

/-- How a piece of code ends. -/
inductive Outcome where
  /-- The code goes on behind the piece. -/
  | normal (o : Operands)
  /-- A branch leaves the scopes around the piece up to the one with this number, counted from the
  inside. The one after the last scope is the function. -/
  | leaves (label : Nat) (o : Operands)
  | traps (e : Error) (globals : List Value)
  deriving DecidableEq, Repr

namespace Outcome

/-- What a function gives back whose body ends like this: all operands outside of its scopes. -/
def answer : Outcome → Answer
  | normal o | leaves _ o => .returns o.stack.toList o.globals
  | traps e globals => .traps e globals

/-- A branch needs as many scopes around it as it leaves inside the one that it names. -/
def branch (label : UInt32) (depth : Nat) (o : Operands) : Outcome :=
  if label.toNat ≤ depth then .leaves label.toNat o else .traps (.unknownLabel label) o.globals

/-- How the code around a scope goes on after the body of the scope has ended. -/
def afterScope (around : OperandStack) (behind left : Operands → Option Outcome) :
    Outcome → Option Outcome
  | normal o => behind { o with stack := around }
  | leaves 0 o => left { o with stack := around }
  | leaves (label + 1) o => some (leaves label { o with stack := around })
  | traps e globals => some (traps e globals)

/-- How a caller goes on after the body of the function that it has called has ended. -/
def afterCall (caller : Operands) (behind : Operands → Option Outcome) (callee : Outcome) :
    Option Outcome :=
  match callee.answer with
  | .returns values globals => behind { caller with stack := caller.stack.extend values, globals }
  | .traps e globals => some (traps e globals)

end Outcome

/-- Takes a condition, which holds unless it is zero. -/
def Operands.onCondition (o : Operands) (next : Bool → Operands → Option Outcome) : Option Outcome :=
  match o.stack.topFirst with
  | [] => some (.traps .stackUnderflow o.globals)
  | v :: below => next (v ≠ 0) { o with stack := ⟨below⟩ }

/-- The operands at the start of a procedure, all locals but the arguments zero. -/
def Procedure.entering (p : Procedure) (args globals : List Value) : Operands :=
  { locals := args ++ p.locals.map ValueType.zero, globals }

/-- A way of running code, given how many more frames there may be and the number of scopes around it.
-/
abbrev Runner := Nat → Nat → Code → Operands → Option Outcome

namespace Code

/-- Runs code, given how loops are started again and how the bodies of called functions are run. -/
def execWith (procedures : List Procedure) (again : Runner) (room : Nat) :
    Nat → Code → Operands → Option Outcome
  | _, nil, o => some (.normal o)
  | depth, plain i _ rest, o =>
    match i.compute o with
    | .ok _ o => execWith procedures again room depth rest o
    | .error e o => some (.traps e o.globals)
  | depth, br label _, o => some (.branch label depth o)
  | depth, brIf label rest, o =>
    o.onCondition fun holds o =>
      if holds then some (.branch label depth o) else execWith procedures again room depth rest o
  | depth, call index rest, o =>
    match procedures[index.toNat]? with
    | none => some (.traps (.unknownFunction index) o.globals)
    | some p =>
      if room = 0 then some (.traps .callDepthExhausted o.globals)
      else
        match o.stack.popN p.params.length with
        | .error e => some (.traps e o.globals)
        | .ok (args, below) =>
          (again (room - 1) 0 p.body (p.entering args o.globals)).bind
            (Outcome.afterCall { o with stack := below } (execWith procedures again room depth rest))
  | depth, scope .block _ body rest, o =>
    (execWith procedures again room (depth + 1) body { o with stack := .empty }).bind
      (Outcome.afterScope o.stack (execWith procedures again room depth rest)
        (execWith procedures again room depth rest))
  | depth, scope .loop type body rest, o =>
    (execWith procedures again room (depth + 1) body { o with stack := .empty }).bind
      (Outcome.afterScope o.stack (execWith procedures again room depth rest)
        (again room depth (scope .loop type body rest)))
  | depth, scope .cond _ body rest, o =>
    o.onCondition fun holds o =>
      if holds then
        (execWith procedures again room (depth + 1) body { o with stack := .empty }).bind
          (Outcome.afterScope o.stack (execWith procedures again room depth rest)
            (execWith procedures again room depth rest))
      else execWith procedures again room depth rest o
  | depth, choice _ body alternative rest, o =>
    o.onCondition fun holds o =>
      (if holds then execWith procedures again room (depth + 1) body { o with stack := .empty }
        else execWith procedures again room (depth + 1) alternative { o with stack := .empty }).bind
        (Outcome.afterScope o.stack (execWith procedures again room depth rest)
          (execWith procedures again room depth rest))

/-- Runs code with some fuel. -/
def exec (procedures : List Procedure) : Nat → Runner
  | 0 => fun _ _ _ _ => none
  | fuel + 1 => execWith procedures (exec procedures fuel)

end Code

/-- Runs a procedure in the first frame of as many as there may be. -/
def Procedure.run? (procedures : List Procedure) (fuel maxDepth : Nat) (p : Procedure)
    (args globals : List Value) : Option Answer :=
  (p.body.exec procedures fuel (maxDepth - 1) 0 (p.entering args globals)).map Outcome.answer

end ScopeMachine
