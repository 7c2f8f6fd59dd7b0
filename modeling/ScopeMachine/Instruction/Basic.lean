import ScopeMachine.BlockType
import ScopeMachine.Instruction.Operator

/-! # Instructions

An instruction has a name and an opcode and carries at most one operand. The operand is an immediate
value, an index of a local, global, function or label, or the type of the scope that it opens.
-/

namespace ScopeMachine

/-- The three ways of opening a scope. -/
inductive ScopeKind where
  | block
  /-- A branch to the scope starts it again. -/
  | loop
  /-- The scope is entered only if the condition holds; otherwise its alternative is, if there is
  one. -/
  | cond
  deriving DecidableEq, Repr, Inhabited

/-- One instruction of a function body. -/
inductive Instruction where
  | nop
  | enter (kind : ScopeKind) (type : BlockType)
  /-- Ends the scope like `close`, and is where the alternative of a condition begins. -/
  | otherwise
  | close
  | br (label : UInt32)
  | brIf (label : UInt32)
  | call (index : UInt32)
  | drop
  | localGet (index : UInt32)
  | localSet (index : UInt32)
  | localTee (index : UInt32)
  | globalGet (index : UInt32)
  | globalSet (index : UInt32)
  | const (value : Value)
  | binary (op : BinaryOp)
  deriving DecidableEq, Repr, Inhabited

/-- A number that is part of an instruction. -/
inductive Immediate where
  | value (v : Value)
  | index (n : UInt32)
  deriving DecidableEq, Repr, Inhabited

def ScopeKind.name : ScopeKind → String
  | block => "block"
  | loop => "loop"
  | cond => "if"

def ScopeKind.opcode : ScopeKind → UInt8
  | block => 0x02
  | loop => 0x03
  | cond => 0x04

namespace Instruction

def name : Instruction → String
  | nop => "nop"
  | enter kind _ => kind.name
  | otherwise => "else"
  | close => "end"
  | br _ => "br"
  | brIf _ => "br_if"
  | call _ => "call"
  | drop => "drop"
  | localGet _ => "local.get"
  | localSet _ => "local.set"
  | localTee _ => "local.tee"
  | globalGet _ => "global.get"
  | globalSet _ => "global.set"
  | const _ => "i32.const"
  | binary op => op.name

def opcode : Instruction → UInt8
  | nop => 0x01
  | enter kind _ => kind.opcode
  | otherwise => 0x05
  | close => 0x0b
  | br _ => 0x0c
  | brIf _ => 0x0d
  | call _ => 0x10
  | drop => 0x1a
  | localGet _ => 0x20
  | localSet _ => 0x21
  | localTee _ => 0x22
  | globalGet _ => 0x23
  | globalSet _ => 0x24
  | const _ => 0x41
  | binary op => op.opcode

/-- The number that the instruction carries. -/
def immediate? : Instruction → Option Immediate
  | const v => some (.value v)
  | br n | brIf n | call n | localGet n | localSet n | localTee n | globalGet n | globalSet n =>
    some (.index n)
  | nop | enter _ _ | otherwise | close | drop | binary _ => none

/-- The type of the scope that the instruction opens. -/
def blockType? : Instruction → Option BlockType
  | enter _ type => some type
  | _ => none

def opensScope (i : Instruction) : Bool := i.blockType?.isSome

/-- What has to be added to a name or an opcode to make an instruction of it. -/
inductive Form where
  /-- Nothing is added. -/
  | plain (instruction : Instruction)
  | indexed (make : UInt32 → Instruction)
  | constant
  /-- The type of the scope is added, which may be empty. -/
  | opener (kind : ScopeKind)

/-- The form that bears a name. -/
def Form.named? : String → Option Form
  | "block" => some (.opener .block)
  | "loop" => some (.opener .loop)
  | "if" => some (.opener .cond)
  | "br" => some (.indexed br)
  | "br_if" => some (.indexed brIf)
  | "call" => some (.indexed call)
  | "local.get" => some (.indexed localGet)
  | "local.set" => some (.indexed localSet)
  | "local.tee" => some (.indexed localTee)
  | "global.get" => some (.indexed globalGet)
  | "global.set" => some (.indexed globalSet)
  | "i32.const" => some .constant
  | "nop" => some (.plain nop)
  | "else" => some (.plain otherwise)
  | "end" => some (.plain close)
  | "drop" => some (.plain drop)
  | "i32.eq" => some (.plain (binary .eq))
  | "i32.ne" => some (.plain (binary .ne))
  | "i32.lt_s" => some (.plain (binary .lt))
  | "i32.gt_s" => some (.plain (binary .gt))
  | "i32.le_s" => some (.plain (binary .le))
  | "i32.ge_s" => some (.plain (binary .ge))
  | "i32.add" => some (.plain (binary .add))
  | "i32.sub" => some (.plain (binary .sub))
  | "i32.mul" => some (.plain (binary .mul))
  | "i32.div_s" => some (.plain (binary .div))
  | _ => none

/-- The form that has an opcode. -/
def Form.coded? : UInt8 → Option Form
  | 0x0c => some (.indexed br)
  | 0x0d => some (.indexed brIf)
  | 0x10 => some (.indexed call)
  | 0x20 => some (.indexed localGet)
  | 0x21 => some (.indexed localSet)
  | 0x22 => some (.indexed localTee)
  | 0x23 => some (.indexed globalGet)
  | 0x24 => some (.indexed globalSet)
  | 0x41 => some .constant
  | 0x01 => some (.plain nop)
  | 0x02 => some (.opener .block)
  | 0x03 => some (.opener .loop)
  | 0x04 => some (.opener .cond)
  | 0x05 => some (.plain otherwise)
  | 0x0b => some (.plain close)
  | 0x1a => some (.plain drop)
  | 0x46 => some (.plain (binary .eq))
  | 0x47 => some (.plain (binary .ne))
  | 0x48 => some (.plain (binary .lt))
  | 0x4a => some (.plain (binary .gt))
  | 0x4c => some (.plain (binary .le))
  | 0x4e => some (.plain (binary .ge))
  | 0x6a => some (.plain (binary .add))
  | 0x6b => some (.plain (binary .sub))
  | 0x6c => some (.plain (binary .mul))
  | 0x6d => some (.plain (binary .div))
  | _ => none

end Instruction

end ScopeMachine
