import ScopeMachine.Tool.Inspect
import ScopeMachine.Tool.Run
import ScopeMachine.Tool.Tour

/-! # The command line

A command names a tool and, for the tools that work on a program, the path of its file and options,
in any order. The value of an option is the next word, which must not look like an option itself, or
follows an equals sign. The arguments of a run take up all words up to the next option, where a
negative number is not taken for an option, and each of these words is split at its spaces. Two
minuses on their own end the options: no word after them is one, whatever it looks like.
-/

namespace ScopeMachine

/-- What the command line asks for. -/
inductive Command where
  | run (path : String) (options : Tool.RunOptions)
  | inspect (path : String) (options : Tool.InspectOptions)
  | tour
  deriving DecidableEq, Repr, Inhabited

namespace Command

/-- How the command line is used. -/
def usage : String :=
  "usage: run PROGRAM [-i|--invoke NAME] [--max-steps N] [-t|--trace] [-d|--debug]\n" ++
  "           [-l|--list-exports] [-a|--args VALUE...]\n" ++
  "       inspect PROGRAM [--exports-only] [-v|--verbose]\n" ++
  "       tour\n"

/-- A word is taken for an option if it starts with a minus and is more than that. -/
def isOption (word : String) : Bool :=
  match word.toList with
  | '-' :: _ :: _ => true
  | _ => false

/-- A number starts with a digit and goes on with digits, which one point and one exponent may
follow. The exponent has a letter of either case and no sign. -/
def isNumber (cs : List Char) : Bool :=
  let afterDigits := (cs.dropWhile Char.isDigit)
  let afterFraction := match afterDigits with
    | '.' :: rest => rest.dropWhile Char.isDigit
    | rest => rest
  (cs.head?.map Char.isDigit).getD false &&
    match afterFraction with
    | 'e' :: rest | 'E' :: rest => !rest.isEmpty && rest.all Char.isDigit
    | rest => rest.isEmpty

/-- A word that stands for itself where arguments are expected. -/
def isArgument (word : String) : Bool := !isOption word || isNumber (word.toList.drop 1)

/-- The word that is the path, which is the only one that belongs to no option and is not empty. -/
def solePath? : List String → Option String
  | [path] => if path = "" then none else some path
  | _ => none

/-- What a word is read as. -/
inductive Awaiting where
  /-- An option or the path. -/
  | anything
  /-- The value of the option that names the function. -/
  | name
  /-- The value of the option that limits the steps. -/
  | limit
  /-- One more argument, unless it is an option. -/
  | argument
  /-- The path, as the options have ended. -/
  | path
  deriving DecidableEq, Repr, Inhabited

/-- What has been read of a command for the run tool. -/
structure RunWords where
  /-- The words that belong to no option. -/
  paths : List String := []
  options : Tool.RunOptions := {}
  awaiting : Awaiting := .anything
  deriving DecidableEq, Repr, Inhabited

namespace RunWords

/-- Adds a word that belongs to no option. -/
def addPath (word : String) (w : RunWords) : RunWords := { w with paths := w.paths ++ [word] }

def setName (name : String) (w : RunWords) : RunWords :=
  { w with options := { w.options with invoke := some name }, awaiting := .anything }

/-- Sets the limit that a numeral denotes, which has 64 bits. -/
def setLimit? (numeral : String) (w : RunWords) : Option RunWords := do
  let n ← Decimal.natural? numeral
  if n ≤ Tool.largestLimit then
    some { w with options := { w.options with maxSteps := some n }, awaiting := .anything }
  else none

/-- Adds the parts of a word between its spaces as arguments. -/
def addArguments (word : String) (w : RunWords) : RunWords :=
  { w with options := { w.options with args := w.options.args ++ word.splitOn " " } }

/-- Reads an option or the path. -/
def readOption? (word : String) (w : RunWords) : Option RunWords :=
  let w := { w with awaiting := .anything }
  match word with
  | "--invoke" | "-i" => some { w with awaiting := .name }
  | "--max-steps" => some { w with awaiting := .limit }
  | "--args" | "-a" => some { w with awaiting := .argument }
  | "--trace" | "-t" => some { w with options := { w.options with trace := true } }
  | "--debug" | "-d" => some { w with options := { w.options with debug := true } }
  | "--list-exports" | "-l" => some { w with options := { w.options with listExports := true } }
  | "--" => some { w with awaiting := .path }
  | word =>
    let (option, value) := word.toList.span (· ≠ '=')
    match String.ofList option, value with
    | "--invoke", _ :: value => some (w.setName (String.ofList value))
    | "--max-steps", _ :: value => w.setLimit? (String.ofList value)
    | _, _ => if isOption word then none else some (w.addPath word)

/-- Reads a word. -/
def read? (w : RunWords) (word : String) : Option RunWords :=
  match w.awaiting with
  | .anything => w.readOption? word
  | .name => if isOption word then none else some (w.setName word)
  | .limit => w.setLimit? word
  | .argument => if isArgument word then some (w.addArguments word) else w.readOption? word
  | .path => some (w.addPath word)

/-- The command, which needs a path and a value for every option that has one. -/
def command? (w : RunWords) : Option Command :=
  match w.awaiting with
  | .name | .limit => none
  | .anything | .argument | .path => (solePath? w.paths).map fun path => .run path w.options

end RunWords

/-- Reads what follows the name of the inspect tool, given the words that belong to no option and
the options that have been read so far. -/
def parseInspect (paths : List String) (options : Tool.InspectOptions) :
    List String → Option Command
  | [] => (solePath? paths).map fun path => .inspect path options
  | "--exports-only" :: rest => parseInspect paths { options with exportsOnly := true } rest
  | "--verbose" :: rest => parseInspect paths { options with verbose := true } rest
  | "-v" :: rest => parseInspect paths { options with verbose := true } rest
  | "--" :: rest => (solePath? (paths ++ rest)).map fun path => .inspect path options
  | word :: rest => if isOption word then none else parseInspect (paths ++ [word]) options rest

/-- Reads a command line. -/
def parse? : List String → Option Command
  | "run" :: rest => do (← rest.foldlM RunWords.read? {}).command?
  | "inspect" :: rest => parseInspect [] {} rest
  | ["tour"] => some .tour
  | _ => none

/-- The program file that a command reads. -/
def path? : Command → Option String
  | run path _ | inspect path _ => some path
  | tour => none

/-- The report of a command, given what reading its program file has yielded. -/
def report (content : Except Unreadable String) : Command → Report
  | run path options => (Tool.run path options content).report
  | inspect path options => (Tool.inspect path options content).report
  | tour => Tool.tour.report

end Command

end ScopeMachine
