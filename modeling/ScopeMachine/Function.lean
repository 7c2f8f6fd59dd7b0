import ScopeMachine.Jump

/-! # Functions

A function declares its parameters, results and further locals and has a flat body of instructions.
It carries the jump table of that body, so that no jump has to search for its target while the
function runs.
-/

namespace ScopeMachine

/-- A function with the jump table of its body. -/
structure Function where
  params : List ValueType := []
  results : List ValueType := []
  /-- The locals besides the parameters. -/
  locals : List ValueType := []
  body : Array Instruction := #[]
  jumps : Array (Option Jump) := Jump.table body
  jumps_eq : jumps = Jump.table body := by rfl
  deriving DecidableEq, Repr

namespace Function

instance : Inhabited Function := ⟨{}⟩

/-- The number of instructions. -/
def size (f : Function) : Nat := f.body.size

/-- The types of all local slots, the parameters first. -/
def slots (f : Function) : List ValueType := f.params ++ f.locals

/-- The types of a scope around the whole body. -/
def blockType (f : Function) : BlockType := { params := f.params, results := f.results }

/-- The boundaries of the scope that the instruction at `pc` opens. -/
def jump? (f : Function) (pc : Nat) : Option Jump := f.jumps[pc]?.join

/-- The position that closes the scope opened at `pc`, the length of the body if nothing does. -/
def matchingEnd (f : Function) (pc : Nat) : Nat := (f.jump? pc).elim f.size Jump.endPc

/-- The position of the alternative of the condition at `pc`. -/
def matchingElse (f : Function) (pc : Nat) : Option Nat := (f.jump? pc).bind Jump.elsePc

/-- Where the body goes on after the scope opened at `pc`. -/
def afterEnd (f : Function) (pc : Nat) : Nat := min (f.matchingEnd pc + 1) f.size

theorem afterEnd_le_size (f : Function) (pc : Nat) : f.afterEnd pc ≤ f.size := Nat.min_le_right ..

end Function

end ScopeMachine
