import ScopeMachine.CommandLine

/-! # The program

Reads the file that the command line names, carries out the command and prints its report.
-/

namespace ScopeMachine

/-- The text of a file, or why it cannot be read. -/
def readProgram (path : String) : IO (Except Unreadable String) := do
  match ← (IO.FS.readFile path).toBaseIO with
  | .ok text => return .ok text
  | .error (.noFileOrDirectory ..) => return .error .missing
  | .error e => return .error (.other (toString e))

/-- Carries out a command and returns its exit status. -/
def Command.carryOut (command : Command) : IO UInt32 := do
  let content ← match command.path? with
    | some path => readProgram path
    | none => pure (.error .missing)
  let report := command.report content
  IO.print report.out
  IO.eprint report.err
  return report.code

end ScopeMachine

def main (args : List String) : IO UInt32 := do
  match ScopeMachine.Command.parse? args with
  | some command => command.carryOut
  | none =>
    IO.eprint ScopeMachine.Command.usage
    return 2
