import ScopeMachine.Machine.Run
import ScopeMachine.Text.Layout
import ScopeMachine.Tool.Session

/-! # Running a program

The run tool loads a program, invokes one of its exported functions with arguments given as texts
and lists the values that it returns. On request it lists the exports instead, limits the steps, or
accounts for its work and for every step on the error output.
-/

namespace ScopeMachine.Tool

/-- What a run is asked to do. -/
structure RunOptions where
  /-- The exported name of the function to invoke. -/
  invoke : Option String := none
  args : List String := []
  maxSteps : Option Nat := none
  trace : Bool := false
  debug : Bool := false
  listExports : Bool := false
  deriving DecidableEq, Repr, Inhabited

/-- The most steps that a run ever takes, whether or not a limit is given. -/
def largestLimit : Nat := UInt64.size - 1

/-- A literal and the name of its type, which follows the first colon and is i32 without one. -/
def splitArgument (arg : String) : String × String :=
  let cs := arg.toList
  match cs.dropWhile (· ≠ ':') with
  | [] => (arg, "i32")
  | _ :: type => (String.ofList (cs.takeWhile (· ≠ ':')), String.ofList type)

/-- Reads an argument: a literal, alone or with its type. -/
def parseArgument (arg : String) : Except String Value :=
  let (literal, typeName) := splitArgument arg
  match ValueType.ofName typeName with
  | .error _ => .error s!"Unknown type '{typeName}'. Supported types: i32"
  | .ok type =>
    match Value.parse type literal with
    | .error _ => .error s!"Failed to parse '{literal}' as {type.name}"
    | .ok v => .ok v

/-- The line of an export: index, name, parameters and, if there are any, results. -/
def exportLine (m : Machine) (name : String) (index : UInt32) : String :=
  let f := m.functions[index.toNat]?.getD default
  let line := s!"  [{index}] {name} ({ValueType.list f.params})"
  if f.results.isEmpty then line else line ++ s!" -> {ValueType.list f.results}"

/-- The lines of all exports, ordered by index. -/
def exportLines (m : Machine) : List String :=
  (m.exports.mergeSort fun a b => a.2 ≤ b.2).map fun (name, index) => exportLine m name index

/-- How far the line that accounts for the next step is indented: by the calls that it is in, and an
instruction by the scopes of the active frame as well. -/
def traceWidth (m : Machine) (frame : Frame) : Nat :=
  let scopes := if frame.instruction?.isSome then frame.depth - 1 else 0
  (m.frames.length - 1) * 2 + scopes * 2

/-- The line that accounts for the next step of the active frame: the position and the instruction
there, or what the frame is about to return. -/
def traceLine? (m : Machine) (frame : Frame) : Option String :=
  (Text.indent? (traceWidth m frame)).map fun indent =>
    Text.alignRight 4 (toString frame.pc) ++ " " ++ indent ++
      match frame.instruction? with
      | some i => i.text
      | none => s!"<return {Value.appliedList frame.results}>"

/-- Accounts for the next step if that is wanted. -/
def noteStep (trace : Bool) (m : Machine) : Session Unit :=
  match m.active? with
  | some frame => do if trace then Session.note (← Session.orAbort (traceLine? m frame))
  | none => pure ()

/-- Steps until the machine is idle, at most `remaining` more times, and tells how many of the steps
of the limit are left then. -/
def stepAll (trace : Bool) (limit : Nat) (remaining : Nat) (m : Machine) :
    Session (Machine × Nat) :=
  if m.idle then pure (m, remaining)
  else
    match remaining with
    | 0 => Session.giveUp s!"Step limit of {limit} reached without finishing"
    | left + 1 => do
      noteStep trace m
      match Machine.step m with
      | .ok _ m => stepAll trace limit left m
      | .error e _ =>
        Session.giveUp s!"Execution failed after {limit - (left + 1)} steps: {e.message}"

/-- Reads the arguments for a function and starts it. -/
def startRun (options : RunOptions) (name : String) (m : Machine) : Session Machine := do
  let some index := m.functionIndex? name
    | Session.giveUp s!"Function '{name}' not found in exports"
  let args ← options.args.mapM fun arg =>
    match parseArgument arg with
    | .ok v => pure v
    | .error message => Session.giveUp message
  let expected := (m.functions[index.toNat]?.getD default).params.length
  if args.length ≠ expected then
    Session.giveUp s!"Function '{name}' expects {expected} arguments, but {args.length} provided"
  Session.noteIf options.debug s!"Invoking function with {args.length} arguments"
  match m.start index args with
  | .ok _ m => pure m
  | .error e _ => Session.giveUp s!"Execution failed: {e.message}"

/-- Lists the values that a run has returned. -/
def sayResults (options : RunOptions) (results : List Value) : Session Unit := do
  if results.isEmpty then
    Session.noteIf options.debug "Function completed successfully (no return value)"
  else
    Session.say "Result:"
    results.zipIdx.forM fun (v, i) => Session.say s!"  [{i}] {v.tagged}"

/-- Invokes a function of a machine and lists its results. -/
def runFunction (options : RunOptions) (m : Machine) : Session Unit := do
  let name := options.invoke.getD "main"
  Session.noteIf options.debug s!"Looking for function: {name}"
  let m ← startRun options name m
  let limit := options.maxSteps.getD largestLimit
  let (m, left) ← stepAll options.trace limit limit m
  Session.noteIf options.debug s!"Finished after {limit - left} steps"
  sayResults options m.results

/-- Lists the exports of a machine. -/
def listExports (m : Machine) : Session Unit := do
  Session.say "Exported functions:"
  (exportLines m).forM Session.say

/-- Runs the program file at a path, given what reading the file has yielded. -/
def run (path : String) (options : RunOptions) (content : Except Unreadable String) :
    Session Unit := do
  Session.noteIf options.debug s!"Loading program from: {Text.quoted path}"
  let m ← Session.loadProgram path content
  Session.noteIf options.debug
    s!"Program has {m.functions.length} functions and {m.globals.length} globals"
  if options.listExports then listExports m else runFunction options m

end ScopeMachine.Tool
