import Mathlib.Order.Bounds.Basic
import ScopeMachine.Proofs.Jump

/-! # Scanning for the boundaries of a scope

The end of a scope can be found without a table, by reading on from its opener and counting: it is the
first closing instruction with as many closing instructions as openers in between. The alternative of a
condition is the last one before that end which is reached with the same balance. `Function.Level` is the
balance for any scope that is open at a position. The table comes from one pass over the body, and is the
one read off from its end (`Jump.table_eq_outlook`). So what the boundaries ahead of a position are is
proved from the end of the body to its start (`ends_ahead`, `alternative_ahead`), one instruction at a
time, and the entry for an opener is its innermost case.
-/

namespace ScopeMachine.Function

variable {f : Function} {pc q k l : Nat} {i : Instruction}

/-- The instructions from one position up to another one. -/
def stretch (f : Function) (pc q : Nat) : List Instruction := (f.body.toList.take q).drop pc

/-- How many scopes are opened from one position up to another one. -/
def openersIn (f : Function) (pc q : Nat) : Nat := (f.stretch pc q).countP Instruction.opensScope

/-- How many closing instructions there are from one position up to another one. -/
def closersIn (f : Function) (pc q : Nat) : Nat := (f.stretch pc q).count .close

/-- Whoever reads from one position up to another one comes out of `k` scopes more than into. -/
def Level (f : Function) (k pc q : Nat) : Prop := f.closersIn pc q = f.openersIn pc q + k

/-- The closing instructions from a position on that the scope with the given number can end at. -/
def closings (f : Function) (k pc : Nat) : Set Nat := {q | pc ≤ q ∧ f.body[q]? = some .close ∧ f.Level k pc q}

/-- The instructions before a limit that can begin the alternative of the scope with the given number. -/
def alternatives (f : Function) (k pc limit : Nat) : Set Nat :=
  {q | pc ≤ q ∧ q < limit ∧ f.body[q]? = some .otherwise ∧ f.Level k pc q}

/-- The last of the given positions, or nothing if there is none. -/
def IsLast (positions : Set Nat) : Option Nat → Prop
  | none => positions = ∅
  | some q => IsGreatest positions q

theorem level_self : f.Level k pc pc ↔ k = 0 := by
  have empty : f.stretch pc pc = [] := List.drop_eq_nil_of_le (List.length_take_le _ _)
  rw [Level, closersIn, openersIn, empty]
  exact ⟨fun balance => by simpa using balance.symm, fun zero => by simp [zero]⟩

theorem stretch_cons (next : f.body[pc]? = some i) (before : pc < q) :
    f.stretch pc q = i :: f.stretch (pc + 1) q := by
  have next : (f.body.toList.take q)[pc]? = some i := by
    rw [List.getElem?_take_of_lt before, Array.getElem?_toList, next]
  obtain ⟨bound, rfl⟩ := List.getElem?_eq_some_iff.mp next
  exact List.drop_eq_getElem_cons bound

theorem level_enter {kind : ScopeKind} {type : BlockType} (next : f.body[pc]? = some (.enter kind type))
    (before : pc < q) : f.Level k pc q ↔ f.Level (k + 1) (pc + 1) q := by
  have opens : (Instruction.enter kind type).opensScope = true := rfl
  simp only [Level, closersIn, openersIn, stretch_cons next before, List.count_cons, List.countP_cons, opens]
  simp only [beq_iff_eq, reduceCtorEq, ↓reduceIte]
  omega

theorem level_close (next : f.body[pc]? = some .close) (before : pc < q) :
    f.Level (k + 1) pc q ↔ f.Level k (pc + 1) q := by
  have passive : Instruction.close.opensScope = false := rfl
  simp only [Level, closersIn, openersIn, stretch_cons next before, List.count_cons, List.countP_cons, passive]
  simp only [beq_self_eq_true, Bool.false_eq_true, ↓reduceIte]
  omega

theorem level_of_stays (next : f.body[pc]? = some i) (notOpener : i.opensScope = false) (notClose : i ≠ .close)
    (before : pc < q) : f.Level k pc q ↔ f.Level k (pc + 1) q := by
  simp only [Level, closersIn, openersIn, stretch_cons next before, List.count_cons, List.countP_cons, notOpener]
  simp only [beq_iff_eq, notClose, Bool.false_eq_true, ↓reduceIte]
  omega

/-- An instruction that does not end the scope itself only renumbers it. -/
theorem closings_succ (other : f.body[pc]? = some .close → k ≠ 0)
    (level : ∀ q, pc < q → (f.Level k pc q ↔ f.Level l (pc + 1) q)) : f.closings k pc = f.closings l (pc + 1) := by
  ext q
  constructor
  · rintro ⟨within, close, balance⟩
    rcases Nat.eq_or_lt_of_le within with rfl | before
    · exact (other close (level_self.mp balance)).elim
    · exact ⟨before, close, (level q before).mp balance⟩
  · rintro ⟨before, close, balance⟩
    exact ⟨Nat.le_of_lt before, close, (level q before).mpr balance⟩

/-- An instruction that is no alternative of the scope itself only renumbers it. -/
theorem alternatives_succ {limit : Nat} (other : f.body[pc]? = some .otherwise → k ≠ 0)
    (level : ∀ q, pc < q → (f.Level k pc q ↔ f.Level l (pc + 1) q)) :
    f.alternatives k pc limit = f.alternatives l (pc + 1) limit := by
  ext q
  constructor
  · rintro ⟨within, below, otherwise, balance⟩
    rcases Nat.eq_or_lt_of_le within with rfl | before
    · exact (other otherwise (level_self.mp balance)).elim
    · exact ⟨before, below, otherwise, (level q before).mp balance⟩
  · rintro ⟨before, below, otherwise, balance⟩
    exact ⟨Nat.le_of_lt before, below, otherwise, (level q before).mpr balance⟩

/-- An open scope ends at the first closing instruction that it can end at, and at the end of the body if there
is none. -/
theorem ends_ahead (within : pc ≤ f.size) (k : Nat) :
    IsLeast (f.closings k pc) (f.ahead pc k).endPc ∨ f.closings k pc = ∅ ∧ (f.ahead pc k).endPc = f.size := by
  induction pc, within using backward generalizing k with
  | atEnd =>
    rw [ahead_size]
    refine .inr ⟨Set.eq_empty_iff_forall_notMem.mpr ?_, rfl⟩
    rintro q ⟨within, close, -⟩
    exact Nat.not_lt.mpr within (Array.getElem?_eq_some_iff.mp close).1
  | before pc i bound next ih =>
    cases i with
    | enter kind type =>
      rw [ahead_enter next, closings_succ (by simp [next]) fun q => level_enter next]
      exact ih (k + 1)
    | close =>
      cases k with
      | zero =>
        rw [ahead_close_zero next]
        exact .inl ⟨⟨Nat.le_refl _, next, level_self.mpr rfl⟩, fun q closing => closing.1⟩
      | succ k =>
        rw [ahead_close_succ next, closings_succ (fun _ => Nat.succ_ne_zero k) fun q => level_close next]
        exact ih k
    | _ =>
      rw [endPc_ahead next rfl nofun, closings_succ (by simp [next]) fun q => level_of_stays next rfl nofun]
      exact ih k

theorem isLast_insert {positions : Set Nat} {last : Option Nat} (isLast : IsLast positions last)
    (before : ∀ q ∈ positions, pc < q) : IsLast (insert pc positions) (last <|> some pc) := by
  cases last with
  | none =>
    have empty : positions = ∅ := isLast
    rw [empty]
    exact ⟨Set.mem_insert _ _, fun q member => Nat.le_of_eq (by simpa using member)⟩
  | some q =>
    obtain ⟨member, greatest⟩ := isLast
    refine ⟨Set.mem_insert_of_mem _ member, ?_⟩
    rintro r (rfl | other)
    · exact Nat.le_of_lt (before q member)
    · exact greatest other

/-- The alternative of an open scope begins at the last instruction before its end that it can begin at. -/
theorem alternative_ahead (within : pc ≤ f.size) (k : Nat) :
    IsLast (f.alternatives k pc (f.ahead pc k).endPc) (f.ahead pc k).elsePc := by
  induction pc, within using backward generalizing k with
  | atEnd =>
    rw [ahead_size]
    refine Set.eq_empty_iff_forall_notMem.mpr ?_
    rintro q ⟨within, below, -⟩
    exact Nat.not_lt.mpr within below
  | before pc i bound next ih =>
    cases i with
    | enter kind type =>
      rw [ahead_enter next, alternatives_succ (by simp [next]) fun q => level_enter next]
      exact ih (k + 1)
    | close =>
      cases k with
      | zero =>
        rw [ahead_close_zero next]
        refine Set.eq_empty_iff_forall_notMem.mpr ?_
        rintro q ⟨within, below, -⟩
        exact Nat.not_lt.mpr within below
      | succ k =>
        rw [ahead_close_succ next, alternatives_succ (by simp [next]) fun q => level_close next]
        exact ih k
    | otherwise =>
      cases k with
      | zero =>
        rw [ahead_otherwise_zero next]
        have ends := (bounds_ahead bound 0).le_endPc
        have here : f.alternatives 0 pc (f.ahead (pc + 1) 0).endPc =
            insert pc (f.alternatives 0 (pc + 1) (f.ahead (pc + 1) 0).endPc) := by
          ext q
          constructor
          · rintro ⟨within, below, otherwise, balance⟩
            rcases Nat.eq_or_lt_of_le within with rfl | before
            · exact Set.mem_insert _ _
            · have later := (level_of_stays next rfl nofun before).mp balance
              exact Set.mem_insert_of_mem _ ⟨before, below, otherwise, later⟩
          · rintro (rfl | ⟨before, below, otherwise, balance⟩)
            · exact ⟨Nat.le_refl _, ends, next, level_self.mpr rfl⟩
            · exact ⟨Nat.le_of_lt before, below, otherwise, (level_of_stays next rfl nofun before).mpr balance⟩
        rw [here]
        exact isLast_insert (ih 0) fun q member => member.1
      | succ k =>
        rw [ahead_otherwise_succ next,
          alternatives_succ (fun _ => Nat.succ_ne_zero k) fun q => level_of_stays next rfl nofun]
        exact ih (k + 1)
    | _ =>
      rw [ahead_of_keepsScopes next rfl, alternatives_succ (by simp [next]) fun q => level_of_stays next rfl nofun]
      exact ih k

/-- The closing instructions behind an opener with as many closing instructions as openers strictly in between. -/
def endings (f : Function) (opener : Nat) : Set Nat :=
  {q | opener < q ∧ f.body[q]? = some .close ∧ f.closersIn (opener + 1) q = f.openersIn (opener + 1) q}

/-- The scan from an opener ends at the first closing instruction that balances it, or at the end of the body. -/
def EndsAt (f : Function) (opener q : Nat) : Prop :=
  IsLeast (f.endings opener) q ∨ f.endings opener = ∅ ∧ q = f.size

/-- The instructions between an opener and the end of its scope that begin an alternative with as many closing
instructions as openers strictly in between. -/
def branchings (f : Function) (opener limit : Nat) : Set Nat :=
  {q | opener < q ∧ q < limit ∧ f.body[q]? = some .otherwise ∧
    f.closersIn (opener + 1) q = f.openersIn (opener + 1) q}

theorem EndsAt.unique {opener q r : Nat} (left : f.EndsAt opener q) (right : f.EndsAt opener r) : q = r := by
  rcases left with least | ⟨empty, rfl⟩
  · rcases right with least' | ⟨empty, -⟩
    · exact least.unique least'
    · exact (Set.notMem_empty q (empty ▸ least.1)).elim
  · rcases right with least | ⟨-, rfl⟩
    · exact (Set.notMem_empty r (empty ▸ least.1)).elim
    · rfl

theorem IsLast.unique {positions : Set Nat} {left right : Option Nat} (isLast : IsLast positions left)
    (isLast' : IsLast positions right) : left = right := by
  cases left with
  | none =>
    cases right with
    | none => rfl
    | some r =>
      have empty : positions = ∅ := isLast
      exact (Set.notMem_empty r (empty ▸ isLast'.1)).elim
  | some q =>
    cases right with
    | none =>
      have empty : positions = ∅ := isLast'
      exact (Set.notMem_empty q (empty ▸ isLast.1)).elim
    | some r => exact congrArg some (IsGreatest.unique isLast isLast')

/-- The jump table has an entry for each opener and for nothing else. The entry gives the position at which a
scan from the opener ends, and for a condition the last instruction before it at which its alternative can
begin; blocks and loops have no alternative. -/
theorem jump?_eq_some_iff_scan (f : Function) (opener : Nat) :
    ((f.jump? opener).isSome = true ↔ ∃ kind type, f.body[opener]? = some (.enter kind type)) ∧
    ∀ j, f.jump? opener = some j ↔ ∃ kind type, f.body[opener]? = some (.enter kind type) ∧
      f.EndsAt opener j.endPc ∧
      match kind with
      | .cond => IsLast (f.branchings opener j.endPc) j.elsePc
      | .block | .loop => j.elsePc = none := by
  by_cases opens : ∃ kind type, f.body[opener]? = some (.enter kind type)
  · obtain ⟨kind, type, next⟩ := opens
    have bound : opener < f.size := (Array.getElem?_eq_some_iff.mp next).1
    have ends : f.EndsAt opener (f.ahead (opener + 1) 0).endPc := ends_ahead bound 0
    have alternative : IsLast (f.branchings opener (f.ahead (opener + 1) 0).endPc) (f.ahead (opener + 1) 0).elsePc :=
      alternative_ahead bound 0
    have entry := jump?_enter next
    refine ⟨by simp [entry, next], fun j => ?_⟩
    rw [entry]
    constructor
    · rintro found
      obtain rfl := Option.some.inj found
      refine ⟨kind, type, next, ends, ?_⟩
      cases kind with
      | cond => exact alternative
      | block | loop => rfl
    · rintro ⟨kind', type', next', ends', alternative'⟩
      obtain ⟨elsePc, endPc⟩ := j
      rw [next] at next'
      cases next'
      obtain rfl : (f.ahead (opener + 1) 0).endPc = endPc := ends.unique ends'
      cases kind with
      | cond =>
        obtain rfl : (f.ahead (opener + 1) 0).elsePc = elsePc := alternative.unique alternative'
        rfl
      | block | loop =>
        obtain rfl : elsePc = none := alternative'
        rfl
  · have none := jump?_eq_none fun kind type next => opens ⟨kind, type, next⟩
    refine ⟨by simp [none, opens], fun j => ?_⟩
    rw [none]
    exact ⟨nofun, fun ⟨kind, type, next, _⟩ => (opens ⟨kind, type, next⟩).elim⟩

end ScopeMachine.Function
