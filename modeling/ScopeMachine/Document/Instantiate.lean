import ScopeMachine.Document.Basic
import ScopeMachine.Instruction.Text
import ScopeMachine.Machine.Basic

/-! # From documents to machines

A document becomes an idle machine with its globals and functions in order and its names exported.
In a document a call may name a function, also a later one, with any number of dollar signs in front
of the name. The first item that is refused decides the error.
-/

namespace ScopeMachine

/-- What is malformed fails the operation that was given it and changes nothing. -/
instance : MonadLift (Except Malformed) Machine.Action where
  monadLift
    | .ok a => pure a
    | .error why => throw (.malformed why)

/-- The value of a global. -/
def GlobalEntry.parse (g : GlobalEntry) : Except Malformed Value := do
  Value.parse (← ValueType.ofName g.type) g.value

namespace Document

/-- The named functions with their indices, the last one first. -/
def names (d : Document) : List (String × UInt32) :=
  (d.functions.zipIdx.filterMap fun (f, index) => f.name.map (·, .ofNat index)).reverse

/-- A name without the dollar signs in front of it. -/
def bareName (word : String) : String := String.ofList (word.toList.dropWhile (· == '$'))

/-- Reads a line of a body, where a call that is followed by one word which is no index names a
function; of several functions with one name the last one is meant. -/
def parseLine (names : List (String × UInt32)) (line : String) : Except Malformed Instruction :=
  match Text.words line with
  | ["call", target] =>
    if (Decimal.uint32? target).isSome then Instruction.parse line
    else
      match names.lookup (bareName target) with
      | some index => .ok (.call index)
      | none => .error .unknownFunctionName
  | _ => Instruction.parse line

end Document

/-- The function of an entry, where names are those of all functions of the document. -/
def FunctionEntry.parse (names : List (String × UInt32)) (f : FunctionEntry) :
    Except Malformed Function := do
  let body ← f.body.mapM (Document.parseLine names)
  let params ← f.params.mapM ValueType.ofName
  let results ← f.results.mapM ValueType.ofName
  let locals ← f.locals.mapM ValueType.ofName
  return { params, results, locals, body := body.toArray }

namespace Document

/-- Adds a global. -/
def addGlobal (g : GlobalEntry) : Machine.Action Unit := do
  let _ ← Machine.addGlobal (← g.parse)

/-- Adds a function and exports its name. -/
def addFunction (names : List (String × UInt32)) (f : FunctionEntry) : Machine.Action Unit := do
  let index ← Machine.addFunction (← f.parse names)
  match f.name with
  | some name => Machine.addExport name index
  | none => pure ()

/-- Adds all that the document lists. -/
def load (d : Document) : Machine.Action Unit := do
  d.globals.forM addGlobal
  d.functions.forM (addFunction d.names)

/-- The machine that a document describes. -/
def instantiate (d : Document) : Except Error Machine :=
  match d.load .empty with
  | .ok _ m => .ok m
  | .error e _ => .error e

end Document

end ScopeMachine
