import ScopeMachine.Instruction.Basic

/-! # Instructions from opcodes

An opcode and its immediate determine an instruction, up to the type of an opened scope, which they
do not hold and which becomes empty. An immediate value serves as an index unless it is negative,
and an index serves as the immediate value with the same bits.
-/

namespace ScopeMachine

namespace Immediate

/-- The immediate as an index. -/
def asIndex : Option Immediate → Except Malformed UInt32
  | none => .error .missingImmediate
  | some (.index n) => .ok n
  | some (.value v) => if v < 0 then .error .invalidImmediate else .ok v.toUInt32

/-- The immediate as a value. -/
def asValue : Option Immediate → Except Malformed Value
  | none => .error .missingImmediate
  | some (.value v) => .ok v
  | some (.index n) => .ok n.toInt32

end Immediate

namespace Instruction

/-- Builds a form's instruction from an immediate. -/
def Form.ofImmediate (immediate : Option Immediate) : Form → Except Malformed Instruction
  | indexed make => make <$> Immediate.asIndex immediate
  | constant => const <$> Immediate.asValue immediate
  | plain i => if immediate.isSome then .error .unexpectedImmediate else .ok i
  | opener kind =>
    if immediate.isSome then .error .unexpectedImmediate else .ok (enter kind .empty)

/-- The instruction with the given opcode and immediate. -/
def ofOpcode (code : UInt8) (immediate : Option Immediate) : Except Malformed Instruction :=
  match Form.coded? code with
  | some form => form.ofImmediate immediate
  | none => .error .illegalOpcode

end Instruction

end ScopeMachine
