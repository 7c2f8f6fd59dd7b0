import Mathlib.Tactic.SplitIfs
import ScopeMachine.Machine.Execution

/-! # What an instruction does

`Instruction.compute` gives the plain instructions, which neither open nor close nor leave a scope
and call nothing, as a table over the operands on top, the locals and the globals. An instruction's
effect on the active frame is that table (`effect_of_isPlain`) or one of a few changes of the open
scopes. `Instruction.Moves` lists them all and forgets the values; everything about positions and
scopes is proved by cases on it. `Instruction.Fails` is the same list for instructions that fail,
which have at most taken operands.
-/

namespace ScopeMachine

namespace Frame

@[simp] theorem withStack_stack (f : Frame) : f.withStack f.stack = f := by
  unfold withStack stack
  cases inner : f.inner <;> simp only [← inner]

@[simp] theorem withStack_withStack (s t : OperandStack) (f : Frame) :
    (f.withStack s).withStack t = f.withStack t := by
  unfold withStack
  cases f.inner <;> rfl

theorem withStack_locals (s : OperandStack) (locals : List Value) (f : Frame) :
    { f.withStack s with locals } = { f with locals }.withStack s := by
  unfold withStack
  cases f.inner <;> rfl

theorem goto_withStack (s : OperandStack) (pc : Nat) (f : Frame) :
    (f.withStack s).goto pc = (f.goto pc).withStack s := by
  unfold goto withStack
  cases f.inner <;> rfl

@[simp] theorem length_inner_withStack (s : OperandStack) (f : Frame) :
    (f.withStack s).inner.length = f.inner.length := by
  unfold withStack
  cases f.inner <;> simp

theorem getLocal_of_lt {f : Frame} {index : UInt32} (known : index.toNat < f.locals.length) :
    f.getLocal index = .ok f.locals[index.toNat] := by
  simp only [getLocal, List.getElem?_eq_getElem known]

theorem getLocal_of_not_lt {f : Frame} {index : UInt32} (unknown : ¬ index.toNat < f.locals.length) :
    f.getLocal index = .error (.unknownLocal index) := by
  simp only [getLocal, List.getElem?_eq_none (Nat.le_of_not_lt unknown)]

/-- A branch is refused if its label names more scopes than are open. -/
theorem branch_eq_error_iff {f : Frame} {label : UInt32} {e : Error} :
    f.branch label = .error e ↔ f.inner.length < label.toNat ∧ e = .unknownLabel label := by
  unfold branch
  split
  · rename_i scope found
    obtain ⟨bound, -⟩ := List.getElem?_eq_some_iff.mp found
    constructor
    · intro branched
      cases branched
    · rintro ⟨beyond, -⟩
      omega
  · rename_i missing
    have within := List.getElem?_eq_none_iff.mp missing
    split_ifs with last
    · constructor
      · intro branched
        cases branched
      · rintro ⟨beyond, -⟩
        omega
    · constructor
      · intro refused
        cases refused
        exact ⟨by omega, rfl⟩
      · rintro ⟨-, rfl⟩
        rfl

theorem setLocal_of_lt {f : Frame} {index : UInt32} (known : index.toNat < f.locals.length)
    (v : Value) : f.setLocal index v = .ok { f with locals := f.locals.set index.toNat v } :=
  if_pos known

end Frame

namespace Workspace

variable {α β : Type}

theorem pop_bind (next : Value → Effect α) (w : Workspace) :
    (pop >>= next) w = match w.frame.stack.topFirst with
      | [] => .error .stackUnderflow w
      | v :: below => next v { w with frame := w.frame.withStack ⟨below⟩ } := by
  cases top : w.frame.stack.topFirst <;>
    simp only [bind, EStateM.bind, pop, Frame.pop, OperandStack.pop, top, Except.map]

theorem ask_bind (query : Frame → Except Error α) (next : α → Effect β) (w : Workspace) :
    (ask query >>= next) w = match query w.frame with
      | .ok a => next a w
      | .error e => .error e w := by
  cases answer : query w.frame <;> simp only [bind, EStateM.bind, ask, answer]

theorem global_bind (index : UInt32) (next : Value → Effect α) (w : Workspace) :
    (global index >>= next) w = match w.globals[index.toNat]? with
      | some v => next v w
      | none => .error (.unknownGlobal index) w := by
  cases answer : w.globals[index.toNat]? <;> simp only [bind, EStateM.bind, global, answer]

theorem popCondition_bind (next : Bool → Effect α) (w : Workspace) :
    (popCondition >>= next) w = match w.frame.stack.topFirst with
      | [] => .error .stackUnderflow w
      | v :: below => next (v ≠ 0) { w with frame := w.frame.withStack ⟨below⟩ } := by
  rw [popCondition]
  simp only [bind_assoc, pop_bind]
  cases w.frame.stack.topFirst <;> rfl

end Workspace

/-- What a plain instruction works on: the operands of the innermost scope, the locals and the
globals. -/
structure Operands where
  stack : OperandStack := .empty
  locals : List Value
  globals : List Value
  deriving DecidableEq, Repr

namespace Workspace

/-- The operands of the active frame. -/
def operands (w : Workspace) : Operands :=
  { stack := w.frame.stack, locals := w.frame.locals, globals := w.globals }

/-- Gives the active frame other operands. -/
def withOperands (o : Operands) (w : Workspace) : Workspace :=
  { frame := { w.frame with locals := o.locals }.withStack o.stack, globals := o.globals }

@[simp] theorem withOperands_operands (w : Workspace) : w.withOperands w.operands = w := by
  unfold withOperands operands
  rw [Frame.withStack_stack]

end Workspace

namespace Instruction

/-- Plain instructions leave all scopes open and go on with the next instruction. -/
def isPlain : Instruction → Bool
  | enter _ _ | otherwise | close | br _ | brIf _ | call _ => false
  | _ => true

/-- What a plain instruction makes of the operands. One that fails may have taken some of them. -/
def compute : Instruction → EStateM Error Operands Unit
  | drop => fun o =>
    match o.stack.topFirst with
    | [] => .error .stackUnderflow o
    | _ :: below => .ok () { o with stack := ⟨below⟩ }
  | localGet index => fun o =>
    match o.locals[index.toNat]? with
    | some v => .ok () { o with stack := o.stack.push v }
    | none => .error (.unknownLocal index) o
  | localSet index => fun o =>
    if index.toNat < o.locals.length then
      match o.stack.topFirst with
      | [] => .error .stackUnderflow o
      | v :: below => .ok () { o with stack := ⟨below⟩, locals := o.locals.set index.toNat v }
    else .error (.unknownLocal index) o
  | localTee index => fun o =>
    if index.toNat < o.locals.length then
      match o.stack.topFirst with
      | [] => .error .stackUnderflow o
      | v :: _ => .ok () { o with locals := o.locals.set index.toNat v }
    else .error (.unknownLocal index) o
  | globalGet index => fun o =>
    match o.globals[index.toNat]? with
    | some v => .ok () { o with stack := o.stack.push v }
    | none => .error (.unknownGlobal index) o
  | globalSet index => fun o =>
    if index.toNat < o.globals.length then
      match o.stack.topFirst with
      | [] => .error .stackUnderflow o
      | v :: below => .ok () { o with stack := ⟨below⟩, globals := o.globals.set index.toNat v }
    else .error (.unknownGlobal index) o
  | const v => fun o => .ok () { o with stack := o.stack.push v }
  | binary op => fun o =>
    match o.stack.topFirst with
    | [] => .error .stackUnderflow o
    | [_] => .error .stackUnderflow { o with stack := .empty }
    | right :: left :: below =>
      match op.eval? left right with
      | some v => .ok () { o with stack := ⟨v :: below⟩ }
      | none => .error .divisionByZero { o with stack := ⟨below⟩ }
  | nop | enter _ _ | otherwise | close | br _ | brIf _ | call _ => fun o => .ok () o

open Workspace

private theorem effect_localSet (pc : Nat) (index : UInt32) (w : Workspace) :
    (localSet index).effect pc w = match (localSet index).compute w.operands with
      | .ok _ o => .ok () (w.withOperands o)
      | .error e o => .error e (w.withOperands o) := by
  simp only [effect, compute, ask_bind, pop_bind, operands]
  by_cases known : index.toNat < w.frame.locals.length
  · simp only [Frame.getLocal_of_lt known, known, ↓reduceIte]
    cases w.frame.stack.topFirst with
    | nil => exact congrArg _ (withOperands_operands w).symm
    | cons v below =>
      have bound : index.toNat < (w.frame.withStack ⟨below⟩).locals.length := by
        rwa [Frame.locals_withStack]
      simp only [tryFrame, Frame.setLocal_of_lt bound]
      rw [Frame.withStack_locals, Frame.locals_withStack]
      rfl
  · simp only [Frame.getLocal_of_not_lt known, known, ↓reduceIte]
    exact congrArg _ (withOperands_operands w).symm

private theorem effect_localTee (pc : Nat) (index : UInt32) (w : Workspace) :
    (localTee index).effect pc w = match (localTee index).compute w.operands with
      | .ok _ o => .ok () (w.withOperands o)
      | .error e o => .error e (w.withOperands o) := by
  simp only [effect, compute, ask_bind, operands, Frame.peek, OperandStack.peek]
  by_cases known : index.toNat < w.frame.locals.length
  · simp only [Frame.getLocal_of_lt known, known, ↓reduceIte]
    cases w.frame.stack.topFirst with
    | nil => exact congrArg _ (withOperands_operands w).symm
    | cons v below =>
      simp only [tryFrame, Frame.setLocal_of_lt known]
      exact congrArg (fun frame => EStateM.Result.ok () { w with frame })
        (Frame.withStack_stack { w.frame with locals := w.frame.locals.set index.toNat v }).symm
  · simp only [Frame.getLocal_of_not_lt known, known, ↓reduceIte]
    exact congrArg _ (withOperands_operands w).symm

private theorem effect_globalSet (pc : Nat) (index : UInt32) (w : Workspace) :
    (globalSet index).effect pc w = match (globalSet index).compute w.operands with
      | .ok _ o => .ok () (w.withOperands o)
      | .error e o => .error e (w.withOperands o) := by
  simp only [effect, compute, global_bind, pop_bind, operands]
  by_cases known : index.toNat < w.globals.length
  · simp only [List.getElem?_eq_getElem known, known, ↓reduceIte]
    cases w.frame.stack.topFirst with
    | nil => exact congrArg _ (withOperands_operands w).symm
    | cons v below => rfl
  · simp only [List.getElem?_eq_none (Nat.le_of_not_lt known), known, ↓reduceIte]
    exact congrArg _ (withOperands_operands w).symm

private theorem effect_binary (pc : Nat) (op : BinaryOp) (w : Workspace) :
    (Instruction.binary op).effect pc w = match (Instruction.binary op).compute w.operands with
      | .ok _ o => .ok () (w.withOperands o)
      | .error e o => .error e (w.withOperands o) := by
  simp only [effect, compute, Workspace.binary, pop_bind, Frame.stack_withStack,
    Frame.withStack_withStack, operands]
  cases w.frame.stack.topFirst with
  | nil => exact congrArg _ (withOperands_operands w).symm
  | cons right rest =>
    cases rest with
    | nil => rfl
    | cons left below =>
      cases value : op.eval? left right with
      | none => simp only [value]; rfl
      | some v =>
        simp only [value]
        change EStateM.Result.ok () { w with frame := (w.frame.withStack ⟨below⟩).push v } = _
        rw [Frame.push, Frame.stack_withStack, Frame.withStack_withStack]
        rfl

/-- A plain instruction computes on the operands of the active frame and changes nothing else. -/
theorem effect_of_isPlain {i : Instruction} (plain : i.isPlain = true) (pc : Nat) (w : Workspace) :
    i.effect pc w = match i.compute w.operands with
      | .ok _ o => .ok () (w.withOperands o)
      | .error e o => .error e (w.withOperands o) := by
  cases i with
  | nop => exact congrArg _ (withOperands_operands w).symm
  | drop =>
    simp only [effect, compute, pop_bind, operands]
    cases w.frame.stack.topFirst with
    | nil => exact congrArg _ (withOperands_operands w).symm
    | cons v below => rfl
  | localGet index =>
    simp only [effect, compute, ask_bind, operands, Frame.getLocal]
    cases w.frame.locals[index.toNat]? with
    | none => exact congrArg _ (withOperands_operands w).symm
    | some v => rfl
  | globalGet index =>
    simp only [effect, compute, global_bind, operands]
    cases w.globals[index.toNat]? with
    | none => exact congrArg _ (withOperands_operands w).symm
    | some v => rfl
  | const v => rfl
  | localSet index => exact effect_localSet pc index w
  | localTee index => exact effect_localTee pc index w
  | globalSet index => exact effect_globalSet pc index w
  | binary op => exact effect_binary pc op w
  | enter | otherwise | close | br | brIf | call => cases plain

/-- Computing neither adds nor removes locals or globals. -/
theorem compute_lengths {i : Instruction} {o o' : Operands} (computed : i.compute o = .ok () o') :
    o'.locals.length = o.locals.length ∧ o'.globals.length = o.globals.length := by
  cases i <;> simp only [compute] at computed
  all_goals repeat' split at computed
  all_goals cases computed
  all_goals simp

/-- All that an instruction other than a call can do to the active frame, which has already been
moved past it, and to the globals. -/
inductive Moves (pc : Nat) : Instruction → Workspace → Workspace → Prop
  | plain {i : Instruction} {w : Workspace} {o : Operands} (isPlain : i.isPlain = true)
      (computed : i.compute w.operands = .ok () o) : Moves pc i w (w.withOperands o)
  | block {type : BlockType} {w : Workspace} :
      Moves pc (enter .block type) w
        { w with frame := w.frame.enter type (w.frame.function.afterEnd pc) }
  | loop {type : BlockType} {w : Workspace} :
      Moves pc (enter .loop type) w { w with frame := w.frame.enter type pc }
  | holds {type : BlockType} {w : Workspace} {v : Value} {below : List Value}
      (top : w.frame.stack.topFirst = v :: below) (nonzero : v ≠ 0) :
      Moves pc (enter .cond type) w
        { w with frame := (w.frame.withStack ⟨below⟩).enter type (w.frame.function.afterEnd pc) }
  | fails {type : BlockType} {w : Workspace} {below : List Value}
      (top : w.frame.stack.topFirst = 0 :: below) :
      Moves pc (enter .cond type) w { w with frame := (w.frame.withStack ⟨below⟩).enterElse pc type }
  | otherwise {w : Workspace} : Moves pc otherwise w { w with frame := w.frame.exit }
  | close {w : Workspace} : Moves pc close w { w with frame := w.frame.leave.2 }
  | br {label : UInt32} {w : Workspace} {f : Frame} (branched : w.frame.branch label = .ok f) :
      Moves pc (br label) w { w with frame := f }
  | taken {label : UInt32} {w : Workspace} {v : Value} {below : List Value} {f : Frame}
      (top : w.frame.stack.topFirst = v :: below) (nonzero : v ≠ 0)
      (branched : (w.frame.withStack ⟨below⟩).branch label = .ok f) :
      Moves pc (brIf label) w { w with frame := f }
  | passed {label : UInt32} {w : Workspace} {below : List Value}
      (top : w.frame.stack.topFirst = 0 :: below) :
      Moves pc (brIf label) w { w with frame := w.frame.withStack ⟨below⟩ }

theorem effect_cond (pc : Nat) (type : BlockType) (w : Workspace) :
    (enter .cond type).effect pc w = match w.frame.stack.topFirst with
      | [] => .error .stackUnderflow w
      | v :: below => .ok () { w with frame :=
          if v ≠ 0 then (w.frame.withStack ⟨below⟩).enter type (w.frame.function.afterEnd pc)
          else (w.frame.withStack ⟨below⟩).enterElse pc type } := by
  simp only [effect, popCondition_bind]
  cases w.frame.stack.topFirst with
  | nil => rfl
  | cons v below =>
    by_cases zero : v = 0
    · simp only [zero, ne_eq, not_true_eq_false, decide_false, Bool.false_eq_true, ↓reduceIte]
      rfl
    · simp only [zero, ne_eq, not_false_eq_true, decide_true, ↓reduceIte]
      rw [← Frame.function_withStack ⟨below⟩]
      rfl

theorem effect_brIf (pc : Nat) (label : UInt32) (w : Workspace) :
    (brIf label).effect pc w = match w.frame.stack.topFirst with
      | [] => .error .stackUnderflow w
      | v :: below =>
        if v ≠ 0 then (br label).effect pc { w with frame := w.frame.withStack ⟨below⟩ }
        else .ok () { w with frame := w.frame.withStack ⟨below⟩ } := by
  simp only [effect, popCondition_bind]
  cases w.frame.stack.topFirst with
  | nil => rfl
  | cons v below =>
    by_cases zero : v = 0
    · simp only [zero, ne_eq, not_true_eq_false, decide_false, Bool.false_eq_true, ↓reduceIte]
      rfl
    · simp only [zero, ne_eq, not_false_eq_true, decide_true, ↓reduceIte]

theorem effect_br (pc : Nat) (label : UInt32) (w : Workspace) :
    (br label).effect pc w = match w.frame.branch label with
      | .ok frame => .ok () { w with frame }
      | .error e => .error e w := rfl

/-- The list of moves is complete and each of them is possible. -/
theorem effect_eq_ok_iff {pc : Nat} {i : Instruction} (notCall : ∀ index, i ≠ call index)
    {w w' : Workspace} : i.effect pc w = .ok () w' ↔ Moves pc i w w' := by
  constructor
  · intro success
    by_cases plain : i.isPlain = true
    · rw [effect_of_isPlain plain] at success
      split at success
      · rename_i o computed
        cases success
        exact .plain plain computed
      · cases success
    · cases i with
      | enter kind type =>
        cases kind with
        | block => cases success; exact .block
        | loop => cases success; exact .loop
        | cond =>
          rw [effect_cond] at success
          cases top : w.frame.stack.topFirst with
          | nil => simp only [top, reduceCtorEq] at success
          | cons v below =>
            simp only [top] at success
            cases success
            split
            · rename_i nonzero
              exact .holds top nonzero
            · rename_i zero
              rw [Decidable.not_not.mp zero] at top
              exact .fails top
      | otherwise => cases success; exact .otherwise
      | close => cases success; exact .close
      | br label =>
        rw [effect_br] at success
        split at success
        · rename_i f branched
          cases success
          exact .br branched
        · cases success
      | brIf label =>
        rw [effect_brIf] at success
        cases top : w.frame.stack.topFirst with
        | nil => simp only [top, reduceCtorEq] at success
        | cons v below =>
          simp only [top] at success
          split at success
          · rename_i nonzero
            rw [effect_br] at success
            split at success
            · rename_i f branched
              cases success
              exact .taken top nonzero branched
            · cases success
          · rename_i zero
            rw [Decidable.not_not.mp zero] at top
            cases success
            exact .passed top
      | call index => exact (notCall index rfl).elim
      | _ => exact (plain rfl).elim
  · intro moves
    cases moves with
    | plain isPlain computed => rw [effect_of_isPlain isPlain, computed]
    | block | loop | otherwise | close => rfl
    | holds top nonzero => simp only [effect_cond, top, nonzero, ne_eq, not_false_eq_true, ↓reduceIte]
    | fails top => simp only [effect_cond, top, ne_eq, not_true_eq_false, ↓reduceIte]
    | br branched => rw [effect_br, branched]
    | taken top nonzero branched =>
      simp only [effect_brIf, top, nonzero, ne_eq, not_false_eq_true, ↓reduceIte, effect_br, branched]
    | passed top => simp only [effect_brIf, top, ne_eq, not_true_eq_false, ↓reduceIte]

/-- The local that an instruction reads or writes. -/
def local? : Instruction → Option UInt32
  | localGet index | localSet index | localTee index => some index
  | _ => none

/-- The global that an instruction reads or writes. -/
def global? : Instruction → Option UInt32
  | globalGet index | globalSet index => some index
  | _ => none

/-- Whether an instruction needs an operand on the innermost stack. -/
def needsOperand : Instruction → Bool
  | enter .cond _ | brIf _ | drop | localSet _ | localTee _ | globalSet _ | binary _ => true
  | _ => false

/-- All ways in which an instruction other than a call can fail, with what it leaves. An index is looked up before
an operand is taken, but a label only after the condition has been. -/
inductive Fails : Instruction → Workspace → Error → Workspace → Prop
  | unknownLocal {i : Instruction} {w : Workspace} {index : UInt32} (names : i.local? = some index)
      (unknown : w.frame.locals.length ≤ index.toNat) : Fails i w (.unknownLocal index) w
  | unknownGlobal {i : Instruction} {w : Workspace} {index : UInt32} (names : i.global? = some index)
      (unknown : w.globals.length ≤ index.toNat) : Fails i w (.unknownGlobal index) w
  | noOperand {i : Instruction} {w : Workspace} (needs : i.needsOperand = true)
      (knownLocal : ∀ index, i.local? = some index → index.toNat < w.frame.locals.length)
      (knownGlobal : ∀ index, i.global? = some index → index.toNat < w.globals.length)
      (empty : w.frame.stack.topFirst = []) : Fails i w .stackUnderflow w
  | oneOperand {op : BinaryOp} {w : Workspace} {v : Value} (top : w.frame.stack.topFirst = [v]) :
      Fails (binary op) w .stackUnderflow { w with frame := w.frame.withStack .empty }
  | divisionByZero {w : Workspace} {dividend : Value} {below : List Value}
      (top : w.frame.stack.topFirst = 0 :: dividend :: below) :
      Fails (binary .div) w .divisionByZero { w with frame := w.frame.withStack ⟨below⟩ }
  | br {label : UInt32} {w : Workspace} (beyond : w.frame.inner.length < label.toNat) :
      Fails (br label) w (.unknownLabel label) w
  | brIf {label : UInt32} {w : Workspace} {v : Value} {below : List Value}
      (top : w.frame.stack.topFirst = v :: below) (nonzero : v ≠ 0)
      (beyond : w.frame.inner.length < label.toNat) :
      Fails (brIf label) w (.unknownLabel label) { w with frame := w.frame.withStack ⟨below⟩ }

/-- A failure of a plain instruction is one of those in the list. -/
private theorem fails_of_compute {i : Instruction} {w : Workspace} {o : Operands} {e : Error}
    (failed : i.compute w.operands = .error e o) : i.Fails w e (w.withOperands o) := by
  have same := withOperands_operands w
  cases i with
  | nop | enter | otherwise | close | br | brIf | call | const => cases failed
  | drop =>
    simp only [compute] at failed
    split at failed
    · rename_i empty
      cases failed
      exact same.symm ▸ .noOperand rfl nofun nofun empty
    · cases failed
  | localGet index =>
    simp only [compute] at failed
    split at failed
    · cases failed
    · rename_i unknown
      cases failed
      exact same.symm ▸ .unknownLocal rfl (List.getElem?_eq_none_iff.mp unknown)
  | globalGet index =>
    simp only [compute] at failed
    split at failed
    · cases failed
    · rename_i unknown
      cases failed
      exact same.symm ▸ .unknownGlobal rfl (List.getElem?_eq_none_iff.mp unknown)
  | localSet index | localTee index =>
    simp only [compute] at failed
    split_ifs at failed with known
    · split at failed
      · rename_i empty
        cases failed
        refine same.symm ▸ .noOperand rfl ?_ nofun empty
        rintro _ ⟨⟩
        exact known
      · cases failed
    · cases failed
      exact same.symm ▸ .unknownLocal rfl (Nat.le_of_not_lt known)
  | globalSet index =>
    simp only [compute] at failed
    split_ifs at failed with known
    · split at failed
      · rename_i empty
        cases failed
        refine same.symm ▸ .noOperand rfl nofun ?_ empty
        rintro _ ⟨⟩
        exact known
      · cases failed
    · cases failed
      exact same.symm ▸ .unknownGlobal rfl (Nat.le_of_not_lt known)
  | binary op =>
    simp only [compute] at failed
    split at failed
    · rename_i empty
      cases failed
      exact same.symm ▸ .noOperand rfl nofun nofun empty
    · rename_i v top
      cases failed
      exact .oneOperand top
    · rename_i right left below top
      split at failed
      · cases failed
      · rename_i undefined
        obtain ⟨rfl, rfl⟩ := BinaryOp.eval?_eq_none_iff.mp undefined
        cases failed
        exact .divisionByZero top

private theorem fails_of_effect {pc : Nat} {i : Instruction} {w w' : Workspace} {e : Error}
    (failed : i.effect pc w = .error e w') : i.Fails w e w' := by
  by_cases plain : i.isPlain = true
  · rw [effect_of_isPlain plain] at failed
    split at failed
    · cases failed
    · rename_i computed
      cases failed
      exact fails_of_compute computed
  · cases i with
    | enter kind type =>
      cases kind with
      | block | loop => cases failed
      | cond =>
        rw [effect_cond] at failed
        split at failed
        · rename_i empty
          cases failed
          exact .noOperand rfl nofun nofun empty
        · cases failed
    | otherwise | close | call => cases failed
    | br label =>
      rw [effect_br] at failed
      split at failed
      · cases failed
      · rename_i refused
        cases failed
        obtain ⟨beyond, rfl⟩ := Frame.branch_eq_error_iff.mp refused
        exact .br beyond
    | brIf label =>
      rw [effect_brIf] at failed
      split at failed
      · rename_i empty
        cases failed
        exact .noOperand rfl nofun nofun empty
      · rename_i top
        split_ifs at failed with nonzero
        rw [effect_br] at failed
        split at failed
        · cases failed
        · rename_i refused
          cases failed
          obtain ⟨beyond, rfl⟩ := Frame.branch_eq_error_iff.mp refused
          rw [Frame.length_inner_withStack] at beyond
          exact .brIf top nonzero beyond
    | _ => exact (plain rfl).elim

private theorem Fails.effect {i : Instruction} {w w' : Workspace} {e : Error} (fails : i.Fails w e w') (pc : Nat) :
    i.effect pc w = .error e w' := by
  have same : w.withOperands { stack := w.frame.stack, locals := w.frame.locals, globals := w.globals } = w :=
    withOperands_operands w
  cases fails with
  | unknownLocal names unknown =>
    cases i with
    | localGet =>
      cases names
      rw [effect_of_isPlain rfl]
      simp only [compute, operands, List.getElem?_eq_none unknown, same]
    | localSet | localTee =>
      cases names
      rw [effect_of_isPlain rfl]
      simp only [compute, operands, Nat.not_lt.mpr unknown, ↓reduceIte, same]
    | _ => cases names
  | unknownGlobal names unknown =>
    cases i with
    | globalGet =>
      cases names
      rw [effect_of_isPlain rfl]
      simp only [compute, operands, List.getElem?_eq_none unknown, same]
    | globalSet =>
      cases names
      rw [effect_of_isPlain rfl]
      simp only [compute, operands, Nat.not_lt.mpr unknown, ↓reduceIte, same]
    | _ => cases names
  | noOperand needs knownLocal knownGlobal empty =>
    cases i with
    | enter kind type =>
      cases kind with
      | cond => rw [effect_cond, empty]
      | block | loop => cases needs
    | brIf => rw [effect_brIf, empty]
    | localSet index | localTee index =>
      rw [effect_of_isPlain rfl]
      simp only [compute, operands, if_pos (knownLocal index rfl), empty, same]
    | globalSet index =>
      rw [effect_of_isPlain rfl]
      simp only [compute, operands, if_pos (knownGlobal index rfl), empty, same]
    | drop | binary =>
      rw [effect_of_isPlain rfl]
      simp only [compute, operands, empty, same]
    | _ => cases needs
  | oneOperand top | divisionByZero top =>
    rw [effect_of_isPlain rfl]
    simp only [compute, operands, top]
    rfl
  | br beyond => rw [effect_br, Frame.branch_eq_error_iff.mpr ⟨beyond, rfl⟩]
  | @brIf label _ v below top nonzero beyond =>
    have refused : (w.frame.withStack ⟨below⟩).branch label = .error (.unknownLabel label) :=
      Frame.branch_eq_error_iff.mpr ⟨by rwa [Frame.length_inner_withStack], rfl⟩
    simp only [effect_brIf, top, effect_br, if_pos nonzero, refused]

/-- The list of failures is complete and each of them is possible. -/
theorem effect_eq_error_iff {pc : Nat} {i : Instruction} {w w' : Workspace} {e : Error} :
    i.effect pc w = .error e w' ↔ i.Fails w e w' :=
  ⟨fails_of_effect, fun fails => fails.effect pc⟩

/-- An instruction that fails has at most taken operands of the innermost scope. -/
theorem Fails.eq_withStack {i : Instruction} {w w' : Workspace} {e : Error} (fails : i.Fails w e w') :
    ∃ stack, w' = { w with frame := w.frame.withStack stack } := by
  have same : w = { w with frame := w.frame.withStack w.frame.stack } := by rw [Frame.withStack_stack]
  cases fails with
  | unknownLocal | unknownGlobal | noOperand | br => exact ⟨_, same⟩
  | oneOperand | divisionByZero | brIf => exact ⟨_, rfl⟩

end Instruction

end ScopeMachine
