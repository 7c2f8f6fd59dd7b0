import ScopeMachine.Instruction.Basic

/-! # Jump tables

An instruction that opens a scope needs to know where the scope ends, and a condition where its
alternative begins. Both are resolved once for a whole body, in one pass from its first instruction
to its last. The pass keeps the openers whose scopes are open: a new opener enters the table as if
nothing closed it, and a later alternative or closing instruction changes the entry of the innermost
opener. Where nothing is open these two change nothing.
-/

namespace ScopeMachine

/-- The boundaries of the scope that one instruction opens. -/
structure Jump where
  /-- The position of the alternative, which only a condition can have. -/
  elsePc : Option Nat := none
  /-- The position of the closing instruction, or the length of the body if there is none. -/
  endPc : Nat
  deriving DecidableEq, Repr, Inhabited

namespace Jump

/-- What a pass over a body has found so far. -/
structure Progress where
  /-- The positions of the openers whose scopes are open, the innermost first. -/
  opened : List Nat := []
  /-- For every instruction the boundaries of the scope that it opens, as far as they are known. -/
  table : Array (Option Jump)
  deriving DecidableEq, Repr, Inhabited

namespace Progress

/-- Before the first instruction nothing is open or known. -/
def start (size : Nat) : Progress := { table := Array.replicate size none }

/-- What is known of the scope that the instruction at `opener` opens. -/
def entry (p : Progress) (opener : Nat) : Option Jump := p.table[opener]?.join

/-- Sets what is known of a scope. -/
def insert (opener : Nat) (j : Jump) (p : Progress) : Progress :=
  { p with table := p.table.setIfInBounds opener (some j) }

/-- Changes what is known of a scope, if anything is. -/
def modify (opener : Nat) (change : Jump → Jump) (p : Progress) : Progress :=
  match p.entry opener with
  | some j => p.insert opener (change j)
  | none => p

/-- A new scope reaches to the end of the body until something closes it. -/
def enter (size pc : Nat) (p : Progress) : Progress :=
  { p with opened := pc :: p.opened }.insert pc { endPc := size }

/-- An alternative belongs to the innermost open scope, if that is a condition. A later one replaces
an earlier one. -/
def alternative (body : Array Instruction) (pc : Nat) (p : Progress) : Progress :=
  match p.opened with
  | [] => p
  | opener :: _ =>
    match body[opener]? with
    | some (.enter .cond _) => p.modify opener fun j => { j with elsePc := some pc }
    | _ => p

/-- A closing instruction ends the innermost open scope. -/
def close (pc : Nat) (p : Progress) : Progress :=
  match p.opened with
  | [] => p
  | opener :: outer => { p with opened := outer }.modify opener fun j => { j with endPc := pc }

/-- Reads the instruction at `pc`. -/
def read (body : Array Instruction) (pc : Nat) (i : Instruction) (p : Progress) : Progress :=
  match i with
  | .enter _ _ => p.enter body.size pc
  | .otherwise => p.alternative body pc
  | .close => p.close pc
  | _ => p

end Progress

/-- The pass over a body up to its end. -/
def resolve (body : Array Instruction) : Progress :=
  body.toList.zipIdx.foldl (fun p (i, pc) => p.read body pc i) (.start body.size)

/-- For every instruction of a body the boundaries of the scope that it opens. -/
def table (body : Array Instruction) : Array (Option Jump) := (resolve body).table

namespace Progress

variable {p : Progress} {opener other : Nat} {j : Jump}

@[simp] theorem opened_insert : (p.insert opener j).opened = p.opened := rfl

@[simp] theorem size_insert : (p.insert opener j).table.size = p.table.size := Array.size_setIfInBounds

@[simp] theorem opened_modify (change : Jump → Jump) : (p.modify opener change).opened = p.opened := by
  unfold modify
  split <;> rfl

@[simp] theorem size_modify (change : Jump → Jump) : (p.modify opener change).table.size = p.table.size := by
  unfold modify
  split <;> simp

@[simp] theorem size_enter (size pc : Nat) : (p.enter size pc).table.size = p.table.size := size_insert

@[simp] theorem size_alternative (body : Array Instruction) (pc : Nat) :
    (p.alternative body pc).table.size = p.table.size := by
  unfold alternative
  split
  · rfl
  · split
    · exact size_modify _
    · rfl

@[simp] theorem size_close (pc : Nat) : (p.close pc).table.size = p.table.size := by
  unfold close
  split
  · rfl
  · exact size_modify _

/-- A pass changes entries and never the number of them. -/
theorem size_read (body : Array Instruction) (pc : Nat) (i : Instruction) :
    (p.read body pc i).table.size = p.table.size := by
  cases i with
  | enter => exact size_enter ..
  | otherwise => exact size_alternative ..
  | close => exact size_close ..
  | _ => rfl

theorem lt_size_of_entry (known : p.entry opener = some j) : opener < p.table.size := by
  refine Nat.lt_of_not_ge fun past => ?_
  rw [entry, Array.getElem?_eq_none past] at known
  cases known

theorem entry_insert_self (bound : opener < p.table.size) : (p.insert opener j).entry opener = some j := by
  simp [entry, insert, bound]

theorem entry_insert_of_ne (ne : opener ≠ other) : (p.insert opener j).entry other = p.entry other := by
  simp [entry, insert, ne]

theorem entry_modify_self (change : Jump → Jump) (known : p.entry opener = some j) :
    (p.modify opener change).entry opener = some (change j) := by
  rw [modify, known]
  exact entry_insert_self (lt_size_of_entry known)

theorem entry_modify_of_ne (change : Jump → Jump) (ne : opener ≠ other) :
    (p.modify opener change).entry other = p.entry other := by
  unfold modify
  split
  · exact entry_insert_of_ne ne
  · rfl

end Progress

/-- The table has one entry for each instruction. -/
@[simp] theorem size_table (body : Array Instruction) : (table body).size = body.size := by
  have run (rest : List (Instruction × Nat)) (p : Progress) :
      (rest.foldl (fun p (i, pc) => p.read body pc i) p).table.size = p.table.size := by
    induction rest generalizing p with
    | nil => rfl
    | cons head rest ih => rw [List.foldl_cons, ih, Progress.size_read]
  rw [table, resolve, run]
  exact Array.size_replicate

end Jump

end ScopeMachine
