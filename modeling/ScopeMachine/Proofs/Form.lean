import ScopeMachine.Instruction.Basic

/-! # Names and opcodes tell the form

Instructions are written by tables of names and opcodes and read by tables of their own. The tables agree: a name
or an opcode is found in them exactly if some instruction has it, and then tells that instruction's form.
-/

namespace ScopeMachine.Instruction

/-- The form that an instruction is of. -/
def form (i : Instruction) : Form :=
  match i with
  | enter kind _ => .opener kind
  | br _ => .indexed br
  | brIf _ => .indexed brIf
  | call _ => .indexed call
  | localGet _ => .indexed localGet
  | localSet _ => .indexed localSet
  | localTee _ => .indexed localTee
  | globalGet _ => .indexed globalGet
  | globalSet _ => .indexed globalSet
  | const _ => .constant
  | nop | otherwise | close | drop | binary _ => .plain i

/-- An instruction's name tells its form. -/
theorem named?_name (i : Instruction) : Form.named? i.name = some i.form := by
  cases i with
  | enter kind => cases kind <;> rfl
  | binary op => cases op <;> rfl
  | _ => rfl

/-- An instruction's opcode tells its form. -/
theorem coded?_opcode (i : Instruction) : Form.coded? i.opcode = some i.form := by
  cases i with
  | enter kind => cases kind <;> rfl
  | binary op => cases op <;> rfl
  | _ => rfl

/-- An instruction of the form. -/
def Form.sample : Form → Instruction
  | plain i => i
  | indexed make => make 0
  | constant => const 0
  | opener kind => enter kind .empty

/-- The names in the table are those of instructions. -/
theorem name_of_named? {name : String} {form : Form} (named : Form.named? name = some form) :
    form.sample.name = name := by
  unfold Form.named? at named
  split at named <;> cases named <;> rfl

/-- The opcodes in the table are those of instructions. -/
theorem opcode_of_coded? {code : UInt8} {form : Form} (coded : Form.coded? code = some form) :
    form.sample.opcode = code := by
  unfold Form.coded? at coded
  split at coded <;> cases coded <;> rfl

theorem named?_eq_some_iff_form {name : String} {form : Form} :
    Form.named? name = some form ↔ ∃ i : Instruction, i.name = name ∧ i.form = form := by
  constructor
  · intro named
    obtain rfl := name_of_named? named
    exact ⟨form.sample, rfl, Option.some.inj ((named?_name form.sample).symm.trans named)⟩
  · rintro ⟨i, rfl, rfl⟩
    exact i.named?_name

theorem coded?_eq_some_iff_form {code : UInt8} {form : Form} :
    Form.coded? code = some form ↔ ∃ i : Instruction, i.opcode = code ∧ i.form = form := by
  constructor
  · intro coded
    obtain rfl := opcode_of_coded? coded
    exact ⟨form.sample, rfl, Option.some.inj ((coded?_opcode form.sample).symm.trans coded)⟩
  · rintro ⟨i, rfl, rfl⟩
    exact i.coded?_opcode

end ScopeMachine.Instruction
