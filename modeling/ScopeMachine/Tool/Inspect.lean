import ScopeMachine.Text.Layout
import ScopeMachine.Tool.Session

/-! # Inspecting a program

The inspect tool shows what a program consists of: its globals, its functions and their
instructions, which are indented by the scopes that they stand in. On request it shows opcodes and
the ends of scopes as well, or nothing but the exported functions.
-/

namespace ScopeMachine.Tool

/-- What to show of a program. -/
structure InspectOptions where
  exportsOnly : Bool := false
  verbose : Bool := false
  deriving DecidableEq, Repr, Inhabited

/-- How deep each instruction of a body is shown, where the first one is shown at `depth` unless it
ends a scope. Nothing is shown outside of the body, which has depth one. -/
def depths (depth : Nat) : List Instruction → List Nat
  | [] => []
  | i :: rest =>
    let here := if i = .close ∨ i = .otherwise then max (depth - 1) 1 else depth
    here :: depths (if i.opensScope ∨ i = .otherwise then here + 1 else here) rest

/-- The boundaries of a scope in words. -/
def jumpNote (jump : Jump) : String :=
  s!" end={jump.endPc}" ++
    match jump.elsePc with
    | some elsePc => s!" else={elsePc}"
    | none => ""

/-- What is shown of an instruction besides its text. -/
def codeNote (f : Function) (pc : Nat) (i : Instruction) : String :=
  s!" ; 0x{Text.hexByte i.opcode}" ++ ((f.jump? pc).map jumpNote).getD ""

/-- The line of the instruction at `pc`, unless it stands too deep. -/
def instructionLine? (options : InspectOptions) (f : Function) (pc depth : Nat) (i : Instruction) :
    Option String :=
  (Text.indent? (depth * 2)).map fun indent =>
    let line := Text.alignRight 6 (toString pc) ++ "  " ++ indent ++ i.text
    if options.verbose then Text.alignLeft 48 line ++ codeNote f pc i else line

/-- The lines of a function's body. -/
def bodyLines (options : InspectOptions) (f : Function) : List (Option String) :=
  (f.body.toList.zip (depths 1 f.body.toList)).zipIdx.map fun ((i, depth), pc) =>
    instructionLine? options f pc depth i

/-- The name under which a function is exported. -/
def exportName? (m : Machine) (index : Nat) : Option String :=
  (m.exports.find? fun (_, i) => i.toNat == index).map Prod.fst

/-- The line of a function: index, name and the types of parameters, results and locals. -/
def functionLine (index : Nat) (name : Option String) (f : Function) : String :=
  let shown := name.getD "<anonymous>"
  s!"  [{index}] {shown} ({ValueType.list f.params}) -> ({ValueType.list f.results})" ++
    s!" locals: ({ValueType.list f.locals})"

/-- The lines of a function and its body; with exports only, of the function alone and only if it
has a name. -/
def functionLines (options : InspectOptions) (index : Nat) (name : Option String) (f : Function) :
    List (Option String) :=
  if options.exportsOnly then
    if name.isSome then [some (functionLine index name f)] else []
  else some (functionLine index name f) :: bodyLines options f

/-- The lines of all globals. -/
def globalLines (m : Machine) : List String :=
  s!"Globals ({m.globals.length}):" :: m.globals.zipIdx.map fun (v, i) => s!"  [{i}] {v.tagged}"

/-- All that is shown of a machine. -/
def machineLines (options : InspectOptions) (m : Machine) : List (Option String) :=
  (if options.exportsOnly then [] else (globalLines m ++ [""]).map some) ++
    some s!"Functions ({m.functions.length}):" ::
      m.functions.zipIdx.flatMap fun (f, i) => functionLines options i (exportName? m i) f

/-- Shows the program file at a path, given what reading the file has yielded, up to the first line
that cannot be laid out. -/
def inspect (path : String) (options : InspectOptions) (content : Except Unreadable String) :
    Session Unit := do
  let m ← Session.loadProgram path content
  Session.say s!"Program: {path}"
  Session.say ""
  (machineLines options m).forM fun line => do Session.say (← Session.orAbort line)

end ScopeMachine.Tool
