/-! # Errors

`Malformed` says why a text, an opcode or a program document is refused; `Error` says why an
operation of the machine fails, which includes that what it was given is malformed. Every cause has
one wording, and the causes that concern an index name it after the wording.
-/

namespace ScopeMachine

/-- Why a text, an opcode or a program document is refused. -/
inductive Malformed where
  | unknownInstruction
  | illegalOpcode
  | missingImmediate
  | unexpectedImmediate
  | invalidImmediate
  | invalidValueType
  | invalidValue
  | invalidBlockType
  | unknownFunctionName
  | duplicateExport
  | invalidDocument
  deriving DecidableEq, Repr, Inhabited

/-- The wording of a refusal. -/
def Malformed.message : Malformed → String
  | unknownInstruction => "unknown instruction"
  | illegalOpcode => "illegal opcode"
  | missingImmediate => "missing immediate"
  | unexpectedImmediate => "unexpected immediate"
  | invalidImmediate => "invalid immediate"
  | invalidValueType => "invalid value type"
  | invalidValue => "invalid value"
  | invalidBlockType => "invalid block type"
  | unknownFunctionName => "unknown function name"
  | duplicateExport => "duplicate export name"
  | invalidDocument => "invalid program document"

/-- Why an operation of the machine fails. -/
inductive Error where
  /-- An operand is missing from the innermost scope's stack. -/
  | stackUnderflow
  | unknownLocal (index : UInt32)
  | unknownGlobal (index : UInt32)
  | unknownFunction (index : UInt32)
  /-- A branch names more scopes than are open. -/
  | unknownLabel (label : UInt32)
  | divisionByZero
  /-- A call would exceed the configured depth. -/
  | callDepthExhausted
  | argumentCount
  /-- A run is started while another one is under way. -/
  | busy
  | malformed (why : Malformed)
  deriving DecidableEq, Repr, Inhabited

namespace Error

/-- The index that an error is about. -/
def index? : Error → Option UInt32
  | unknownLocal index | unknownGlobal index | unknownFunction index | unknownLabel index =>
    some index
  | _ => none

/-- The wording of an error's cause. -/
def cause : Error → String
  | stackUnderflow => "stack underflow"
  | unknownLocal _ => "unknown local"
  | unknownGlobal _ => "unknown global"
  | unknownFunction _ => "unknown function"
  | unknownLabel _ => "unknown label"
  | divisionByZero => "integer divide by zero"
  | callDepthExhausted => "call stack exhausted"
  | argumentCount => "invalid number of arguments"
  | busy => "instance is already executing"
  | malformed why => why.message

/-- The cause, followed by the index it is about if there is one. -/
def message (e : Error) : String :=
  match e.index? with
  | some index => e.cause ++ " " ++ toString index
  | none => e.cause

end Error

/-- What is malformed fails the operation that was given it. -/
instance : MonadLift (Except Malformed) (Except Error) where
  monadLift
    | .ok a => .ok a
    | .error why => .error (.malformed why)

end ScopeMachine
