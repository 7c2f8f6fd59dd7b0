import ScopeMachine.Frame

/-! # Machines

A machine holds functions and globals under consecutive indices, names for functions that can be
called from outside, the frames of the calls under way and the results of the last run. An operation
that fails still leaves a machine behind, so operations are steps of a state that survives errors.
-/

namespace ScopeMachine

/-- The whole state of a machine. -/
structure Machine where
  functions : List Function := []
  globals : List Value := []
  /-- The exported names with the functions that they stand for, the newest last. -/
  exports : List (String × UInt32) := []
  /-- The calls under way, the active one first. -/
  frames : List Frame := []
  /-- What the last finished run has returned and nobody has taken yet. -/
  results : List Value := []
  /-- How many frames there may be. -/
  maxDepth : Nat := 1000
  deriving DecidableEq, Repr, Inhabited

namespace Machine

/-- An operation on a machine; when it fails the machine stays as the failure found it. -/
abbrev Action := EStateM Error Machine

/-- A machine without functions and globals. -/
def empty : Machine := {}

/-- The frame that the next step works on. -/
def active? (m : Machine) : Option Frame := m.frames.head?

/-- A machine is idle when no call is under way. -/
def idle (m : Machine) : Bool := m.frames.isEmpty

/-- The function that an exported name stands for. -/
def functionIndex? (name : String) (m : Machine) : Option UInt32 := m.exports.lookup name

/-- The function with the given index. -/
def function (index : UInt32) (m : Machine) : Except Error Function :=
  match m.functions[index.toNat]? with
  | some f => .ok f
  | none => .error (.unknownFunction index)

/-- The global with the given index. -/
def global (index : UInt32) (m : Machine) : Except Error Value :=
  match m.globals[index.toNat]? with
  | some v => .ok v
  | none => .error (.unknownGlobal index)

/-- The exports ordered by name. -/
def exportsByName (m : Machine) : List (String × UInt32) :=
  m.exports.mergeSort fun a b => a.1 ≤ b.1

/-- Adds a function and returns its index. -/
def addFunction (f : Function) : Action UInt32 := fun m =>
  .ok (.ofNat m.functions.length) { m with functions := m.functions ++ [f] }

/-- Adds a global and returns its index. -/
def addGlobal (v : Value) : Action UInt32 := fun m =>
  .ok (.ofNat m.globals.length) { m with globals := m.globals ++ [v] }

/-- Gives a function a name, which must be a new one. -/
def addExport (name : String) (index : UInt32) : Action Unit := fun m =>
  if m.functions.length ≤ index.toNat then .error (.unknownFunction index) m
  else if (m.functionIndex? name).isSome then .error (.malformed .duplicateExport) m
  else .ok () { m with exports := m.exports ++ [(name, index)] }

/-- Changes how many frames there may be. -/
def withMaxDepth (depth : Nat) (m : Machine) : Machine := { m with maxDepth := depth }

end Machine

end ScopeMachine
