import ScopeMachine.Document.Instantiate
import ScopeMachine.Text.Quoted

/-! # Tool sessions

A tool writes lines to its two outputs until it is done or gives up with a message. What it has
written by then stays written; the message is reported in quotes on the error output. A line that
cannot be laid out is not written: it aborts the tool.
-/

namespace ScopeMachine

/-- What a tool leaves behind. -/
structure Report where
  /-- The exit status. -/
  code : UInt32 := 0
  out : String := ""
  err : String := ""
  deriving DecidableEq, Repr, Inhabited

/-- The lines that a tool has written so far. -/
structure Transcript where
  out : Array String := #[]
  err : Array String := #[]
  deriving DecidableEq, Repr, Inhabited

/-- Why a tool stops before it is done. -/
inductive Stop where
  /-- It gives up with a message. -/
  | gaveUp (message : String)
  /-- It is aborted, as a line cannot be laid out. -/
  | aborted
  deriving DecidableEq, Repr, Inhabited

/-- The work of a tool, which may stop before it is done. -/
abbrev Session := EStateM Stop Transcript

/-- Why a program file cannot be read. -/
inductive Unreadable where
  | missing
  /-- Another reason, in the words of the system. -/
  | other (reason : String)
  deriving DecidableEq, Repr, Inhabited

def Unreadable.message : Unreadable → String
  | missing => "No such file or directory (os error 2)"
  | other reason => reason

namespace Session

/-- Writes a line to the output. -/
def say (line : String) : Session Unit := modify fun t => { t with out := t.out.push line }

/-- Writes a line to the error output. -/
def note (line : String) : Session Unit := modify fun t => { t with err := t.err.push line }

/-- Writes a line to the error output if that is wanted. -/
def noteIf (wanted : Bool) (line : String) : Session Unit := if wanted then note line else pure ()

/-- Stops with a message. -/
def giveUp (message : String) : Session α := throw (.gaveUp message)

/-- The value of a computation; if it fails, its error is put into words. -/
def orGiveUp (words : Error → String) : Except Error α → Session α
  | .ok a => pure a
  | .error e => giveUp (words e)

/-- A text, unless it cannot be laid out. -/
def orAbort : Option String → Session String
  | some text => pure text
  | none => throw .aborted

/-- Lines, each with its end. -/
def text (lines : Array String) : String := String.join (lines.toList.map (· ++ "\n"))

/-- The status of a tool that is aborted. -/
def abortStatus : UInt32 := 134

/-- The report of a session from its beginning to its end. -/
def report (s : Session Unit) : Report :=
  match s.run {} with
  | .ok _ t => { out := text t.out, err := text t.err }
  | .error (.gaveUp message) t =>
    { code := 1, out := text t.out, err := text (t.err.push ("Error: " ++ Text.quoted message)) }
  | .error .aborted t =>
    { code := abortStatus
      out := text t.out
      err := text (t.err.push "Formatting argument out of range") }

/-- The machine of the program file at a path, given what reading the file has yielded. -/
def loadProgram (path : String) (content : Except Unreadable String) : Session Machine := do
  let text ← match content with
    | .ok text => pure text
    | .error why => giveUp s!"Failed to read program file {path}: {why.message}"
  let document ← orGiveUp (fun e => s!"Failed to parse program {path}: {e.message}")
    (liftM (Document.parse text))
  orGiveUp (fun e => s!"Failed to instantiate program {path}: {e.message}") document.instantiate

end Session

end ScopeMachine
