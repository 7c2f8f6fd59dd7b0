import ScopeMachine.Machine.Run
import ScopeMachine.Tool.Sample
import ScopeMachine.Tool.Session

/-! # A tour of the sample programs

The tour runs programs that it builds itself and the sample documents, and shows what they compute:
the operands between the steps of an expression, a call, calculations, a division that fails, and a
counter that keeps its value from one invocation to the next.
-/

namespace ScopeMachine.Tool

/-- More steps than any run of the tour takes. -/
def tourFuel : Nat := 100000

/-- The expression (3 * 2 + 4) == 10 as a function. -/
def expression : Function where
  results := [.i32]
  body := #[.const 3, .const 2, .binary .mul, .const 4, .binary .add, .const 10, .binary .eq]

/-- A function that adds five to its argument, and one that applies it to ten. -/
def nestedCall : List Function := [
  { params := [.i32], results := [.i32], body := #[.localGet 0, .const 5, .binary .add] },
  { results := [.i32], body := #[.const 10, .call 0] }]

/-- Carries out an operation of a machine, whose errors are told as they are. -/
def attempt (m : Machine) (action : Machine.Action α) : Session (α × Machine) :=
  match action m with
  | .ok a m => pure (a, m)
  | .error e _ => Session.giveUp e.message

/-- Steps until the machine is idle and shows the top operand before each step, if there is one. -/
def showSteps (fuel step : Nat) (m : Machine) : Session Machine :=
  if m.idle then pure m
  else
    match fuel with
    | 0 => Session.giveUp "the tour takes too long"
    | fuel + 1 => do
      match (m.active?.map Frame.peek) with
      | some (.ok v) => Session.say s!"  step {step}: top = {v.tagged}"
      | _ => pure ()
      let (_, m) ← attempt m Machine.step
      showSteps fuel (step + 1) m

/-- Shows the steps and the results of the expression. -/
def tourExpression : Session Unit := do
  let (_, m) ← attempt { functions := [expression] } (Machine.start 0 [])
  let m ← showSteps tourFuel 0 m
  Session.say s!"(3 * 2 + 4) == 10 -> {Value.appliedList m.results}"

/-- Shows the results of the nested call. -/
def tourNestedCall : Session Unit := do
  match Machine.invoke? tourFuel 1 [] { functions := nestedCall } with
  | some (.ok results _) => Session.say s!"fn1() = {Value.appliedList results}"
  | some (.error e _) => Session.giveUp e.message
  | none => Session.giveUp "the tour takes too long"

/-- The first result of an exported function, or what went wrong, and the machine afterwards. -/
def invokeByName (m : Machine) (name : String) (args : List Value) :
    Except String Value × Machine :=
  match m.functionIndex? name with
  | none => (.error s!"no function named {name}", m)
  | some index =>
    match m.invoke? tourFuel index args with
    | none => (.error "the tour takes too long", m)
    | some (.error e m) => (.error e.message, m)
    | some (.ok [] m) => (.error s!"{name} returned nothing", m)
    | some (.ok (v :: _) m) => (.ok v, m)

/-- An invocation as it is shown. -/
def invocationText (name : String) (args : List Value) : String :=
  name ++ "(" ++ ", ".intercalate (args.map toString) ++ ")"

/-- Invokes functions of a machine one after the other and shows their first results. -/
def showInvocations (m : Machine) : List (String × List Value) → Session Machine
  | [] => pure m
  | (name, args) :: rest => do
    match invokeByName m name args with
    | (.ok v, m) =>
      Session.say s!"{invocationText name args} = {v}"
      showInvocations m rest
    | (.error message, _) => Session.giveUp message

/-- Invokes a function that fails and shows its error. -/
def showFailure (m : Machine) (name : String) (args : List Value) : Session Unit :=
  match invokeByName m name args with
  | (.ok v, _) => Session.say s!"{invocationText name args} = {v}"
  | (.error message, _) => Session.say s!"{invocationText name args} failed: {message}"

/-- The machine of a sample document. -/
def loadSample (document : Document) : Session Machine :=
  Session.orGiveUp Error.message document.instantiate

/-- Shows calculations with the sample documents. -/
def tourSamples : Session Unit := do
  let arithmetic ← loadSample Sample.arithmetic
  let arithmetic ← showInvocations arithmetic
    [("add", [10, 32]), ("subtract", [100, 58]), ("multiply", [6, 7]), ("divide", [84, 2])]
  showFailure arithmetic "divide" [1, 0]
  let factorial ← loadSample Sample.factorial
  let _ ← showInvocations factorial
    ([0, 1, 5, 10].map fun n => ("factorial", [n]))
  let controlFlow ← loadSample Sample.controlFlow
  let _ ← showInvocations controlFlow
    (([0, 1, 2, 5, 10].map fun n => ("fibonacci", [n])) ++
      [("max", [42, 17]), ("min", [42, 17]), ("abs", [-42])] ++
      ([-42, 0, 42].map fun n => ("sign", [n])) ++ List.replicate 3 ("tick", []))

/-- The whole tour. -/
def tour : Session Unit := do
  tourExpression
  tourNestedCall
  tourSamples

end ScopeMachine.Tool
