import Mathlib.Algebra.Ring.Nat
import ScopeMachine.Proofs.Holding
import ScopeMachine.Proofs.Structured.Code

/-! # Expressions in postfix code

An `Expression` is a tree of operators over constants, locals and globals, and its postfix code lists the code of
both operands before the operator. `Expression.evaluate` is its value in integers, each of which is reduced to the
range of values, or else the division at which its evaluation from the left to the right comes upon a zero divisor.
Wherever the code stands in a function, the machine computes just that
(`Machine.evaluates_code`).
-/

namespace ScopeMachine

namespace BinaryOp

/-- The value of an operator on integers; a quotient by zero has none. -/
def onInt? : BinaryOp → Int → Int → Option Int
  | eq, a, b => some (if a = b then 1 else 0)
  | ne, a, b => some (if a = b then 0 else 1)
  | lt, a, b => some (if a < b then 1 else 0)
  | gt, a, b => some (if b < a then 1 else 0)
  | le, a, b => some (if a ≤ b then 1 else 0)
  | ge, a, b => some (if b ≤ a then 1 else 0)
  | add, a, b => some (a + b)
  | sub, a, b => some (a - b)
  | mul, a, b => some (a * b)
  | div, a, b => if b = 0 then none else some (a.tdiv b)

private theorem toInt_ofBool (b : Bool) : (Value.ofBool b).toInt = (if b then 1 else 0 : Int).bmod (2 ^ 32) := by
  cases b <;> rfl

/-- Values are computed like integers, except that the result is reduced to their range. -/
theorem map_toInt_eval? (op : BinaryOp) (a b : Value) :
    (op.eval? a b).map Int32.toInt = (op.onInt? a.toInt b.toInt).map (·.bmod (2 ^ 32)) := by
  cases op with
  | eq | ne | lt | gt | le | ge =>
    simp only [eval?, onInt?, Option.map_some, toInt_ofBool, decide_eq_true_eq, beq_iff_eq, bne_iff_ne,
      Int32.lt_iff_toInt_lt, Int32.le_iff_toInt_le, ← Int32.toInt_inj, ite_not, ne_eq]
  | add => simp only [eval?, onInt?, Option.map_some, Int32.toInt_add]
  | sub => simp only [eval?, onInt?, Option.map_some, Int32.toInt_sub]
  | mul => simp only [eval?, onInt?, Option.map_some, Int32.toInt_mul]
  | div =>
    have zero : b = 0 ↔ b.toInt = 0 := Int32.toInt_inj.symm
    simp only [eval?, onInt?, zero]
    split
    · rfl
    · simp only [Option.map_some, Int32.toInt_div]

end BinaryOp

/-- A tree of operators over constants, locals and globals, all of which are known to exist. -/
inductive Expression (locals globals : Nat) where
  | const (value : Value)
  | localGet (index : UInt32) (known : index.toNat < locals)
  | globalGet (index : UInt32) (known : index.toNat < globals)
  | binary (op : BinaryOp) (left right : Expression locals globals)
  deriving DecidableEq, Repr

namespace Expression

section

variable {n k : Nat}

/-- The number of nodes of the tree. -/
def nodes : Expression n k → Nat
  | const _ | localGet _ _ | globalGet _ _ => 1
  | binary _ left right => left.nodes + right.nodes + 1

/-- The postfix code of an expression, which has an instruction for each node. -/
def code : Expression n k → List Instruction
  | const value => [.const value]
  | localGet index _ => [.localGet index]
  | globalGet index _ => [.globalGet index]
  | binary op left right => left.code ++ (right.code ++ [.binary op])

theorem length_code (e : Expression n k) : e.code.length = e.nodes := by
  induction e with
  | const | localGet | globalGet => rfl
  | binary op left right ihLeft ihRight =>
    simp only [code, nodes, List.length_append, ihLeft, ihRight, List.length_singleton]
    omega

end

/-- The value of an expression, or how many nodes come before the division that finds its divisor to be zero. Both
operands are evaluated before the operator, the left one first, and the integer at each operator is reduced to the
one from -2 ^ 31 up to 2 ^ 31 that it is congruent to modulo 2 ^ 32. -/
def evaluate (locals globals : List Value) : Expression locals.length globals.length → Except Nat Int
  | const value => .ok value.toInt
  | localGet index known => .ok locals[index.toNat].toInt
  | globalGet index known => .ok globals[index.toNat].toInt
  | binary op left right =>
    match left.evaluate locals globals with
    | .error before => .error before
    | .ok a =>
      match right.evaluate locals globals with
      | .error before => .error (left.nodes + before)
      | .ok b =>
        match op.onInt? a b with
        | some c => .ok (c.bmod (2 ^ 32))
        | none => .error (left.nodes + right.nodes)

end Expression

namespace Machine

variable {m : Machine} {callers : List Frame} {f : Frame} {locals globals : List Value} {tail : List Instruction}

/-- What code that stands at `pc` does: it puts a value on the stack in so many steps, or it comes upon a division by
zero after fewer of them, with some operands left on the stack. -/
def Evaluates (m : Machine) (callers : List Frame) (f : Frame) (locals globals : List Value) (pc nodes : Nat)
    (stack : OperandStack) : Except Nat Int → Prop
  | .ok n => ∃ v : Value, v.toInt = n ∧
      Steps nodes (m.running callers f pc { stack, locals, globals })
        (m.running callers f (pc + nodes) { stack := stack.push v, locals, globals })
  | .error before => before < nodes ∧ f.function.body[pc + before]? = some (.binary .div) ∧ ∃ pending,
      Traps before (m.running callers f pc { stack, locals, globals }) .divisionByZero
        (m.running callers f (pc + before + 1) { stack := stack.extend pending, locals, globals })

/-- A step from one plain instruction to the next. -/
theorem steps_plain {pc : Nat} {i : Instruction} {o o' : Operands} (here : f.function.codeFrom pc = i :: tail)
    (more : tail ≠ []) (plain : i.isPlain = true) (computed : i.compute o = .ok () o') :
    Steps 1 (m.running callers f pc o) (m.running callers f (pc + 1) o') := by
  obtain ⟨next, rest, rfl⟩ := List.exists_cons_of_ne_nil more
  apply Steps.single (List.cons_ne_nil _ _)
  rw [step_running m callers o (Function.getElem?_of_codeFrom here) plain, computed]
  exact congrArg _ (retireFinished_running (Function.getElem?_of_codeFrom (Function.codeFrom_succ here)))

/-- The operator takes its right operand first. -/
private theorem compute_binary (op : BinaryOp) (stack : OperandStack) (a b : Value) :
    (Instruction.binary op).compute { stack := (stack.push a).push b, locals, globals } = match op.eval? a b with
      | some v => .ok () { stack := stack.push v, locals, globals }
      | none => .error .divisionByZero { stack, locals, globals } := rfl

/-- An operator puts the value that it has on integers in the place of its operands, or it is a division by zero. -/
private theorem evaluates_operator {op : BinaryOp} {pc : Nat} (here : f.function.codeFrom pc = .binary op :: tail)
    (more : tail ≠ []) (stack : OperandStack) (a b : Value) :
    match op.onInt? a.toInt b.toInt with
    | some c => ∃ v : Value, v.toInt = c.bmod (2 ^ 32) ∧
        Steps 1 (m.running callers f pc { stack := (stack.push a).push b, locals, globals })
          (m.running callers f (pc + 1) { stack := stack.push v, locals, globals })
    | none => f.function.body[pc]? = some (.binary .div) ∧
        step (m.running callers f pc { stack := (stack.push a).push b, locals, globals }) =
          .error .divisionByZero (m.running callers f (pc + 1) { stack, locals, globals }) := by
  have value := op.map_toInt_eval? a b
  have computed := @compute_binary locals globals op stack a b
  cases meant : op.onInt? a.toInt b.toInt with
  | some c =>
    rw [meant, Option.map_some] at value
    obtain ⟨v, computes, same⟩ := Option.map_eq_some_iff.mp value
    rw [computes] at computed
    exact ⟨v, same, steps_plain here more rfl computed⟩
  | none =>
    rw [meant, Option.map_none, Option.map_eq_none_iff] at value
    obtain ⟨rfl, rfl⟩ := BinaryOp.eval?_eq_none_iff.mp value
    rw [value] at computed
    have division := Function.getElem?_of_codeFrom here
    have failed := step_running m callers { stack := (stack.push a).push 0, locals, globals } division rfl
    rw [computed] at failed
    exact ⟨division, failed⟩

/-- Wherever the code of an expression stands, it does what the expression says. -/
theorem evaluates_expression (e : Expression locals.length globals.length) {pc : Nat}
    (here : f.function.codeFrom pc = e.code ++ tail) (more : tail ≠ []) (stack : OperandStack) :
    Evaluates m callers f locals globals pc e.nodes stack (e.evaluate locals globals) := by
  -- Behind the left operand stands the code of the right one, and its value lies under that of the right one: the
  -- rest of the code and the stack are any.
  induction e generalizing pc tail stack with
  | const value => exact ⟨value, rfl, steps_plain here more rfl rfl⟩
  | localGet index known =>
    refine ⟨locals[index.toNat], rfl, steps_plain here more rfl ?_⟩
    simp only [Instruction.compute, List.getElem?_eq_getElem known]
  | globalGet index known =>
    refine ⟨globals[index.toNat], rfl, steps_plain here more rfl ?_⟩
    simp only [Instruction.compute, List.getElem?_eq_getElem known]
  | binary op left right ihLeft ihRight =>
    rw [Expression.code, List.append_assoc, List.append_assoc] at here
    have hereRight := Function.codeFrom_add here
    rw [Expression.length_code] at hereRight
    have hereOp := Function.codeFrom_add hereRight
    rw [Expression.length_code, Nat.add_assoc] at hereOp
    have runLeft := ihLeft here (by simp) stack
    rw [Expression.evaluate, Expression.nodes]
    cases valueLeft : left.evaluate locals globals with
    | error before =>
      rw [valueLeft] at runLeft
      obtain ⟨less, division, pending, traps⟩ := runLeft
      exact ⟨by omega, division, pending, traps⟩
    | ok n =>
      rw [valueLeft] at runLeft
      obtain ⟨a, rfl, stepsLeft⟩ := runLeft
      have runRight := ihRight hereRight (by simp) (stack.push a)
      cases valueRight : right.evaluate locals globals with
      | error before =>
        rw [valueRight] at runRight
        obtain ⟨less, division, pending, traps⟩ := runRight
        have all := traps.append stepsLeft
        rw [Nat.add_assoc pc, OperandStack.extend_push] at all
        rw [Nat.add_assoc] at division
        exact ⟨by omega, division, a :: pending, all⟩
      | ok n =>
        rw [valueRight] at runRight
        obtain ⟨b, rfl, stepsRight⟩ := runRight
        have both := stepsLeft.append stepsRight
        rw [Nat.add_assoc pc] at both
        have last := @evaluates_operator m callers f locals globals tail op _ hereOp more stack a b
        dsimp only
        cases meant : op.onInt? a.toInt b.toInt with
        | some c =>
          rw [meant] at last
          obtain ⟨v, same, step⟩ := last
          exact ⟨v, same, both.append step⟩
        | none =>
          rw [meant] at last
          obtain ⟨division, failed⟩ := last
          exact ⟨by omega, division, [], _, both, failed⟩

/-- The code of an expression puts its value on the innermost stack in as many steps as it has nodes and leads
behind itself, or it comes upon the first division by zero, and nothing but the operands of the innermost scope has
changed then. -/
theorem evaluates_code (frames : m.frames = f :: callers) (e : Expression f.locals.length m.globals.length)
    (here : f.function.codeFrom f.pc = e.code ++ tail) (more : tail ≠ []) :
    match e.evaluate f.locals m.globals with
    | .ok n => ∃ v : Value, v.toInt = n ∧
        Steps e.nodes m { m with frames := (f.goto (f.pc + e.nodes)).push v :: callers }
    | .error before => before < e.nodes ∧ f.function.body[f.pc + before]? = some (.binary .div) ∧
        ∃ pending, Traps before m .divisionByZero
          { m with frames := (f.goto (f.pc + before + 1)).extend pending :: callers } := by
  have evaluates := @evaluates_expression m callers f f.locals m.globals tail e f.pc here more f.stack
  have current : m = m.running callers f f.pc { stack := f.stack, locals := f.locals, globals := m.globals } :=
    eq_running frames
  cases value : e.evaluate f.locals m.globals with
  | ok _ | error _ =>
    rw [value, Evaluates, ← current] at evaluates
    exact evaluates

/-- The least value divided by minus one, less one: both results are out of range. -/
def wrapping : Expression 1 1 :=
  .binary .sub (.binary .div (.localGet 0 (by decide)) (.globalGet 0 (by decide))) (.const 1)

/-- A division by zero among the operands of a sum. -/
def zeroDivisor : Expression 1 1 :=
  .binary .add (.const 3) (.binary .div (.const 5) (.binary .sub (.const 1) (.const 1)))

/-- A function that evaluates both expressions in a block, upon an operand that is there already. -/
def computing : Function where
  params := [.i32]
  body := { toList := [.const 4, .enter .block .empty, .const 9] ++ wrapping.code ++ zeroDivisor.code ++ [.close] }

/-- A machine in that block. -/
def underway (pc : Nat) (topFirst : List Value) : Machine :=
  { functions := [computing], globals := [-1]
    frames := [{ function := computing, base := ⟨[4]⟩, inner := [{ stack := ⟨topFirst⟩, type := .empty, target := 16 }]
                 locals := [-2147483648], pc }] }

theorem evaluates_code_underway :
    ∃ started v pending, start 0 [-2147483648] { functions := [computing], globals := [-1] } = .ok () started ∧
      Steps 3 started (underway 3 [9]) ∧ v.toInt = 2147483647 ∧ Steps 5 (underway 3 [9]) (underway 8 [v, 9]) ∧
      Traps 5 (underway 8 [v, 9]) .divisionByZero (underway 14 (pending ++ [v, 9])) := by
  obtain ⟨v, value, computed⟩ := evaluates_code (m := underway 3 [9]) rfl wrapping rfl nofun
  obtain ⟨-, -, pending, traps⟩ := evaluates_code (m := underway 8 [v, 9]) rfl zeroDivisor rfl nofun
  exact ⟨_, v, pending.reverse, rfl, .cons nofun rfl (.cons nofun rfl (.cons nofun rfl (.refl _))), value, computed,
    traps⟩

end Machine

end ScopeMachine
