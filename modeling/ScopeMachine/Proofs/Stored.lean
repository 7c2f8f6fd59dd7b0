import ScopeMachine.Proofs.Soundness
import ScopeMachine.Proofs.Unwinding

/-! # Frames that store the function body among their scopes

A frame can store its scopes in one array, the function body first and the innermost scope last, and find them by
their distance from the end. Nothing says that such an array is never empty, so a scope that is looked up may
not be there. For the frames of the machine it always is: whatever is done to a frame has the same answer on the
array, and the two stay the same frame (`Frame.Change.stored?_stored`, `StoredFrame.foldlM_left?_ofFunction`).
-/

namespace ScopeMachine

/-- A frame with all its scopes in an array, the outermost first. -/
structure StoredFrame where
  function : Function
  scopes : Array Scope
  locals : List Value
  pc : Nat := 0
  deriving DecidableEq, Repr

namespace StoredFrame

/-- A frame at the start of a function. -/
def ofFunction (f : Function) : StoredFrame :=
  { function := f, scopes := #[{ type := f.blockType, target := f.size }], locals := f.slots.map ValueType.zero }

/-- The innermost scope. -/
def current? (f : StoredFrame) : Option Scope := f.scopes[f.scopes.size - 1]?

/-- Gives the innermost scope another stack. -/
def withStack (s : OperandStack) (f : StoredFrame) : StoredFrame :=
  { f with scopes := f.scopes.modify (f.scopes.size - 1) fun scope => { scope with stack := s } }

/-- Puts an operand on the innermost stack. -/
def push? (v : Value) (f : StoredFrame) : Option StoredFrame :=
  f.current?.map fun scope => f.withStack (scope.stack.push v)

/-- Takes the top operand. -/
def pop? (f : StoredFrame) : Option (Except Error (Value × StoredFrame)) :=
  f.current?.map fun scope => scope.stack.pop.map fun (v, below) => (v, f.withStack below)

/-- Opens a scope with an empty stack. -/
def enter (type : BlockType) (target : Nat) (f : StoredFrame) : StoredFrame :=
  { f with scopes := f.scopes.push { type, target } }

/-- Leaves the innermost scope, unless it is the only one. -/
def leave (f : StoredFrame) : Option Scope × StoredFrame :=
  if f.scopes.size = 1 then (none, { f with pc := f.function.size })
  else (f.scopes.back?, { f with scopes := f.scopes.pop })

/-- Keeps the first scopes only and continues at the target of the given one. -/
def cut (keep : Nat) (scope : Scope) (f : StoredFrame) : StoredFrame :=
  { f with scopes := f.scopes.take keep, pc := scope.target }

/-- Leaves the scope with the given distance from the end and continues at its target. The first scope is kept. -/
def branch? (label : UInt32) (f : StoredFrame) : Option (Except Error StoredFrame) :=
  let depth := label.toNat
  if f.scopes.size ≤ depth then some (.error (.unknownLabel label))
  else if depth = f.scopes.size - 1 then
    (f.scopes.take 1)[0]?.map fun scope => .ok (f.cut 1 scope)
  else
    f.scopes[f.scopes.size - depth - 1]?.map fun scope => .ok (f.cut (f.scopes.size - depth - 1) scope)

/-- What the frame hands to its caller. -/
def results (f : StoredFrame) : List Value := f.scopes.back?.elim [] fun scope => scope.stack.toList

end StoredFrame

namespace Frame

/-- The frame with all its scopes in an array. -/
def stored (f : Frame) : StoredFrame :=
  { function := f.function, scopes := f.scopes.reverse.toArray, locals := f.locals, pc := f.pc }

/-- A change of the array; nothing if a scope that is looked up is not there. -/
def Change.stored? : Change → StoredFrame → Option (Except Error StoredFrame)
  | push v, f => (f.push? v).map .ok
  | pop, f => f.pop?.map (·.map Prod.snd)
  | enter type target, f => some (.ok (f.enter type target))
  | leave, f => some (.ok f.leave.2)
  | branch label, f => f.branch? label
  | goto pc, f => some (.ok { f with pc })

theorem modify_push {α : Type} (xs : Array α) (a : α) (change : α → α) :
    (xs.push a).modify xs.size change = xs.push (change a) := by
  rw [← Array.toList_inj, Array.toList_modify, Array.toList_push, Array.toList_push]
  exact List.modifyTailIdx_add (List.modifyHead change) 0 xs.toList [a]

variable (f : Frame)

theorem size_scopes_stored : f.stored.scopes.size = f.depth := by
  simp [stored, length_scopes]

/-- The function body comes first. -/
theorem getElem?_zero_scopes_stored : f.stored.scopes[0]? = some f.root := by
  simp [stored, reverse_scopes]

/-- The scope that was opened last is the last of the array. -/
theorem stored_push (scope : Scope) : ({ f with inner := scope :: f.inner } : Frame).stored =
    { f.stored with scopes := f.stored.scopes.push scope } := by
  simp [stored, reverse_scopes, root]

/-- The array loses nothing. -/
theorem stored_injective : Function.Injective stored := by
  intro f g same
  obtain ⟨function, base, inner, locals, pc⟩ := f
  obtain ⟨function', base', inner', locals', pc'⟩ := g
  simp only [stored, reverse_scopes, root, StoredFrame.mk.injEq, ← Array.toList_inj, List.cons.injEq, Scope.mk.injEq,
    List.reverse_inj] at same
  obtain ⟨rfl, ⟨⟨rfl, -⟩, rfl⟩, rfl, rfl⟩ := same
  rfl

theorem current?_stored : ∃ scope, f.stored.current? = some scope ∧ scope.stack = f.stack := by
  obtain ⟨scope, found, same⟩ := f.innermost_inRange
  refine ⟨scope, ?_, same⟩
  simpa [StoredFrame.current?, stored] using found

theorem stored_withStack (s : OperandStack) : (f.withStack s).stored = f.stored.withStack s := by
  obtain ⟨function, base, _ | ⟨scope, outer⟩, locals, pc⟩ := f
  · rfl
  · have opened (scope : Scope) : stored ⟨function, base, scope :: outer, locals, pc⟩ =
        { stored ⟨function, base, outer, locals, pc⟩ with
          scopes := (stored ⟨function, base, outer, locals, pc⟩).scopes.push scope } :=
      stored_push ⟨function, base, outer, locals, pc⟩ scope
    rw [withStack, opened, opened, StoredFrame.withStack, Array.size_push, Nat.add_sub_cancel, modify_push]

theorem push?_stored (v : Value) : f.stored.push? v = some (f.push v).stored := by
  obtain ⟨scope, found, same⟩ := f.current?_stored
  rw [StoredFrame.push?, found, Option.map_some, same, push, stored_withStack]

theorem pop?_stored : f.stored.pop? = some (f.pop.map (Prod.map id stored)) := by
  obtain ⟨scope, found, same⟩ := f.current?_stored
  rw [StoredFrame.pop?, found, Option.map_some, same, pop]
  cases f.stack.pop with
  | error e => rfl
  | ok taken =>
    have given : (f.withStack taken.2).stored = f.stored.withStack taken.2 := f.stored_withStack taken.2
    simp only [Except.map, Prod.map, id, given]

theorem stored_enter (type : BlockType) (target : Nat) :
    (f.enter type target).stored = f.stored.enter type target := f.stored_push { type, target }

/-- Only the function body is never taken out of the array. -/
theorem leave_stored : f.stored.leave = (f.leave.1, f.leave.2.stored) := by
  rw [StoredFrame.leave, size_scopes_stored, depth]
  obtain ⟨function, base, _ | ⟨scope, outer⟩, locals, pc⟩ := f
  · rfl
  · have opened := stored_push ⟨function, base, outer, locals, pc⟩ scope
    rw [if_neg (by simp), opened, Array.back?_push, Array.pop_push]
    rfl

theorem branch?_stored (label : UInt32) : f.stored.branch? label = some ((f.branch label).map stored) := by
  rw [StoredFrame.branch?, size_scopes_stored]
  by_cases beyond : f.depth ≤ label.toNat
  · have refused : f.branch label = .error (.unknownLabel label) := branch_eq_error_iff.mpr ⟨beyond, rfl⟩
    rw [if_pos beyond, refused]
    rfl
  · have within : label.toNat < f.scopes.length := by
      rw [length_scopes]
      exact Nat.lt_of_not_le beyond
    obtain ⟨scope, found, target, rest⟩ := unwind_inRange within
    have branched : f.branch label = .ok (f.unwind label.toNat) :=
      branch_eq_ok_iff.mpr ⟨Nat.le_of_lt_succ (Nat.lt_of_not_le beyond), rfl⟩
    rw [length_scopes] at found rest
    rw [if_neg beyond, branched, Except.map]
    have moved (keep : Nat) (count : max 1 (f.depth - label.toNat - 1) = keep) :
        f.stored.cut keep scope = (f.unwind label.toNat).stored := by
      rw [stored, stored, rest, target, count, StoredFrame.cut, List.take_toArray]
      rfl
    have first : (f.stored.scopes.take 1)[0]? = some f.root := by
      rw [Array.take_eq_extract, Array.getElem?_extract, size_scopes_stored, if_pos (by simp [depth]),
        getElem?_zero_scopes_stored]
    have there : f.stored.scopes[f.depth - label.toNat - 1]? = some scope := by
      simpa only [stored, List.getElem?_toArray] using found
    split_ifs with body
    · have same : f.depth - label.toNat - 1 = 0 := by omega
      have isRoot : scope = f.root := by
        rw [same, reverse_scopes] at found
        exact (Option.some.inj found).symm
      rw [first, Option.map_some, ← isRoot, moved 1 (by omega)]
    · rw [there, Option.map_some, moved _ (by omega)]

theorem results_stored : f.stored.results = f.results := by
  obtain ⟨function, base, _ | ⟨scope, outer⟩, locals, pc⟩ := f
  · rfl
  · have opened := stored_push ⟨function, base, outer, locals, pc⟩ scope
    rw [StoredFrame.results, opened, Array.back?_push]
    rfl

/-- A change does the same to the array as to the frame, and no scope that it looks up is missing. -/
theorem Change.stored?_stored (c : Change) : c.stored? f.stored = some ((c.result f).map stored) := by
  cases c with
  | push v =>
    rw [stored?, push?_stored, result]
    rfl
  | pop =>
    rw [stored?, pop?_stored, result]
    cases f.pop <;> rfl
  | enter type target =>
    rw [stored?, ← stored_enter, result]
    rfl
  | leave =>
    rw [stored?, leave_stored, result]
    rfl
  | branch label => exact f.branch?_stored label
  | goto pc => rfl

end Frame

open ScopeMachine.Frame

/-- The array after a change, which stays as it was if the change fails. -/
def StoredFrame.left? (f : StoredFrame) (c : Change) : Option StoredFrame :=
  (c.stored? f).map fun result => result.toOption.getD f

theorem Frame.left?_stored (f : Frame) (c : Change) : f.stored.left? c = some (c.left f).stored := by
  rw [StoredFrame.left?, c.stored?_stored, Option.map_some, Change.left]
  cases c.result f <;> rfl

/-- Whatever is done to a new frame, no scope is ever missing, and the array is that of the changed frame. -/
theorem StoredFrame.foldlM_left?_ofFunction (fn : ScopeMachine.Function) (changes : List Change) :
    changes.foldlM left? (ofFunction fn) =
      some (changes.foldl (fun f c => c.left f) (Frame.ofFunction fn)).stored := by
  have history (f : Frame) : changes.foldlM left? f.stored = some (changes.foldl (fun f c => c.left f) f).stored := by
    induction changes generalizing f with
    | nil => rfl
    | cons c changes ih =>
      rw [List.foldlM_cons, f.left?_stored c, List.foldl_cons]
      exact ih (c.left f)
  exact history (Frame.ofFunction fn)

end ScopeMachine
