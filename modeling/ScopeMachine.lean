import ScopeMachine.Instruction.Opcode
import ScopeMachine.Main
import ScopeMachine.Proofs.Step
import ScopeMachine.Proofs.Run
import ScopeMachine.Proofs.Portions
import ScopeMachine.Proofs.Answer
import ScopeMachine.Proofs.Operation
import ScopeMachine.Proofs.Shape
import ScopeMachine.Proofs.Unwinding
import ScopeMachine.Proofs.Stored
import ScopeMachine.Proofs.Failure
import ScopeMachine.Proofs.Holding
import ScopeMachine.Proofs.Jump
import ScopeMachine.Proofs.Scanning
import ScopeMachine.Proofs.Soundness
import ScopeMachine.Proofs.Nesting
import ScopeMachine.Proofs.OpenScopes
import ScopeMachine.Proofs.NestedCall
import ScopeMachine.Proofs.Growth
import ScopeMachine.Proofs.Beneath
import ScopeMachine.Proofs.CallDepth
import ScopeMachine.Proofs.OperandBound
import ScopeMachine.Proofs.LoopFree
import ScopeMachine.Proofs.BranchFree
import ScopeMachine.Proofs.Layout.Correspondence
import ScopeMachine.Proofs.Layout.Simulation
import ScopeMachine.Proofs.Layout.Outcome
import ScopeMachine.Proofs.Layout.Insertion
import ScopeMachine.Proofs.Layout.Edit
import ScopeMachine.Proofs.Structured.Code
import ScopeMachine.Proofs.Expression
import ScopeMachine.Proofs.Structured.Reference
import ScopeMachine.Proofs.Structured.Refinement
import ScopeMachine.Proofs.Related
import ScopeMachine.Proofs.Lockstep
import ScopeMachine.Proofs.Invocation
import ScopeMachine.Proofs.Recast
import ScopeMachine.Proofs.Renumbering
import ScopeMachine.Proofs.Untyped
import ScopeMachine.Proofs.Reply
import ScopeMachine.Proofs.Form
import ScopeMachine.Proofs.Recoding
import ScopeMachine.Proofs.Words
import ScopeMachine.Proofs.Numeral
import ScopeMachine.Proofs.Message
import ScopeMachine.Proofs.Document.Written
import ScopeMachine.Proofs.Document.Loading
import ScopeMachine.Proofs.Document.Listing
import ScopeMachine.Proofs.Document.Meaning
import ScopeMachine.Proofs.Document.Calls
import ScopeMachine.Proofs.Document.Permutation
import ScopeMachine.Proofs.Json.Lexeme
import ScopeMachine.Proofs.Json.Tree
import ScopeMachine.Proofs.Json.Library
import ScopeMachine.Proofs.Document.Spelling
import ScopeMachine.Proofs.Document.Printed
import ScopeMachine.Proofs.Literal
import ScopeMachine.Proofs.Grammar
import ScopeMachine.Proofs.Tool.Session
import ScopeMachine.Proofs.Tool.Wording
import ScopeMachine.Proofs.Tool.Tracing
import ScopeMachine.Proofs.Tool.Run
import ScopeMachine.Proofs.Tool.Exports
import ScopeMachine.Proofs.Tool.Indentation
