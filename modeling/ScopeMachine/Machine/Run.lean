import ScopeMachine.Machine.Step

/-! # Runs

A run starts on an idle machine with a function and its arguments, and steps until the machine is
idle again or an instruction fails. A run may go on forever, so the operations that wait for its end
take the number of steps they may wait as fuel and have no answer when it is used up.
-/

namespace ScopeMachine.Machine

/-- Starts a function on an idle machine. -/
def start (index : UInt32) (args : List Value) : Action Unit := fun m =>
  if m.idle then
    match m.function index >>= fun f => (Frame.ofFunction f).bindArgs args with
    | .ok frame => .ok () { m with frames := [frame], results := [] }
    | .error e => .error e m
  else .error .busy m

/-- Steps at most `limit` times and tells whether the machine is idle then. -/
def runSteps (limit : Nat) : Action Bool := fun m =>
  match limit with
  | 0 => .ok m.idle m
  | limit + 1 =>
    if m.idle then .ok true m
    else
      match step m with
      | .ok _ m => runSteps limit m
      | .error e m => .error e m

/-- Steps until the machine is idle or a step fails. -/
def run? (fuel : Nat) (m : Machine) : Option (EStateM.Result Error Machine Unit) :=
  if m.idle then some (.ok () m)
  else
    match fuel with
    | 0 => none
    | fuel + 1 =>
      match step m with
      | .ok _ m => run? fuel m
      | .error e m => some (.error e m)

/-- Hands out the results of the last run. -/
def takeResults : Action (List Value) := fun m => .ok m.results { m with results := [] }

/-- Starts a function, runs it to its end and hands out its results. -/
def invoke? (fuel : Nat) (index : UInt32) (args : List Value) (m : Machine) :
    Option (EStateM.Result Error Machine (List Value)) :=
  match start index args m with
  | .error e m => some (.error e m)
  | .ok _ m =>
    match run? fuel m with
    | some (.ok _ m) => some (takeResults m)
    | some (.error e m) => some (.error e m)
    | none => none

/-- Abandons the run under way and its results; functions, globals and exports stay. -/
def reset (m : Machine) : Machine := { m with frames := [], results := [] }

end ScopeMachine.Machine
