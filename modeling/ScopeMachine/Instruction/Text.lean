import ScopeMachine.Instruction.Basic
import ScopeMachine.Text.Word

/-! # The text form of instructions

An instruction is written as its name, followed by its immediate or by the type of the scope that it
opens. It is read word by word: parentheses only separate words, so the reader takes them anywhere.
-/

namespace ScopeMachine

/-- An immediate as a decimal numeral. -/
def Immediate.text : Immediate → String
  | value v => toString v
  | index n => toString n

namespace Instruction

/-- What is written after the name. -/
def operandText (i : Instruction) : Option String :=
  match i.immediate?, i.blockType? with
  | some immediate, _ => some immediate.text
  | none, some type => if type.isEmpty then none else some type.text
  | none, none => none

/-- The written instruction. -/
def text (i : Instruction) : String :=
  match i.operandText with
  | some operand => i.name ++ " " ++ operand
  | none => i.name

/-- The only word of an operand. -/
def soleWord : List String → Except Malformed String
  | [word] => .ok word
  | [] => .error .missingImmediate
  | _ => .error .unexpectedImmediate

/-- Reads an index. -/
def parseIndex (word : String) : Except Malformed UInt32 :=
  match Decimal.uint32? word with
  | some n => .ok n
  | none => .error .invalidImmediate

/-- Builds a form's instruction from the words after its name. -/
def Form.ofWords (rest : List String) : Form → Except Malformed Instruction
  | indexed make => do return make (← parseIndex (← soleWord rest))
  | constant => do return const (← Value.parse .i32 (← soleWord rest))
  | opener kind => enter kind <$> BlockType.ofWords none rest
  | plain i => if rest.isEmpty then .ok i else .error .unexpectedImmediate

/-- Builds an instruction from its words. -/
def ofWords : List String → Except Malformed Instruction
  | [] => .error .unknownInstruction
  | name :: rest =>
    match Form.named? name with
    | some form => form.ofWords rest
    | none => .error .unknownInstruction

/-- Words of an instruction are separated by blanks and by parentheses. -/
def separates (c : Char) : Bool := Text.isBlank c || c == '(' || c == ')'

/-- Reads a written instruction. -/
def parse (text : String) : Except Malformed Instruction := ofWords (Text.wordsBy separates text)

end Instruction

end ScopeMachine
