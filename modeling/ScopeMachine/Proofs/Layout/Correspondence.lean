import Mathlib.Data.List.Forall2
import ScopeMachine.Proofs.OpenScopes

/-! # Layouts of the same code

The same code can stand at other positions of another body, with instructions in between that change
nothing. `Function.Layout` relates the positions of two functions of which one does what the other
does: wherever an instruction goes on from related positions, it goes on at related positions again. A
frame shadows another one if they differ in related positions only, and an instruction that both have
does the same to both of them (`Instruction.effect_shadows`).
-/

namespace ScopeMachine

/-- Lists related member by member are related at every index. -/
theorem rel_getElem? {α β : Type} {R : α → β → Prop} {left : List α} {right : List β}
    (related : List.Forall₂ R left right) (n : Nat) : Option.Rel R left[n]? right[n]? := by
  induction related generalizing n with
  | nil => exact .none
  | cons head _ ih =>
    cases n with
    | zero => exact .some head
    | succ n => exact ih n

namespace Function

section
variable (f g : Function) (R : Nat → Nat → Prop)

/-- The same instruction stands at both positions, and what it refers to by its position is related. -/
structure Alike (i : Instruction) (q q' : Nat) : Prop where
  here : f.body[q]? = some i
  there : g.body[q']? = some i
  again : R q q'
  next : R (q + 1) (q' + 1)
  behind : i.opensScope = true → R (f.afterEnd q) (g.afterEnd q')

/-- The ways in which `g` does from one position on what `f` does at another one. -/
inductive Matches (q q' : Nat) : Prop
  | ends (here : q = f.size) (there : q' = g.size)
  | same {i : Instruction} (alike : Alike f g R i q q')
      (alternatives : ∀ type, i = .enter .cond type →
        Option.Rel (fun e e' => R (e + 1) (e' + 1)) (f.matchingElse q) (g.matchingElse q'))
  /-- A value is taken and put back instead of being left where it is. -/
  | tee {index : UInt32} (here : f.body[q]? = some (.localTee index))
      (set : g.body[q']? = some (.localSet index)) (get : g.body[q' + 1]? = some (.localGet index))
      (next : R (q + 1) (q' + 2))
  /-- The innermost scope is left for its target, which is where the closing instruction goes on. -/
  | otherwise {type : BlockType} (here : f.body[q]? = some .close) (there : g.body[q']? = some .otherwise)
      (innermost : (f.enclosing q).head?.map f.scopeAt = some (type, q + 1))
  /-- An alternative is entered that is closed at once. -/
  | cond {type : BlockType} {elsePc : Nat} (alike : Alike f g R (.enter .cond type) q q')
      (lacks : f.matchingElse q = none) (found : g.matchingElse q' = some elsePc)
      (closes : g.body[elsePc + 1]? = some .close) (skips : R (f.afterEnd q) (elsePc + 2))

/-- From a position on `g` does what `f` does at `q`, after pausing for a while. -/
inductive Pauses (q : Nat) : Nat → Prop
  | now {q' : Nat} (matched : Matches f g R q q') : Pauses q q'
  | pause {q' : Nat} (there : g.body[q']? = some .nop) (next : R q (q' + 1)) (rest : Pauses q (q' + 1)) :
      Pauses q q'

/-- The positions of two functions correspond such that `g` does from each of them what `f` does from
any position related to it. -/
structure Layout : Prop where
  params : g.params = f.params
  locals : g.locals = f.locals
  starts : R 0 0
  finishes : R f.size g.size
  pauses : ∀ {q q' : Nat}, R q q' → Pauses f g R q q'

/-- The functions are layouts of the same code. -/
def Rearranged : Prop := ∃ R, Layout f g R

end

variable {f g : Function} {R : Nat → Nat → Prop} {q q' : Nat}

theorem Matches.ends_or_inside (matched : f.Matches g R q q') :
    q = f.size ∧ q' = g.size ∨ q < f.size ∧ q' < g.size := by
  have inside {f : Function} {q : Nat} {i : Instruction} (here : f.body[q]? = some i) : q < f.size :=
    (Array.getElem?_eq_some_iff.mp here).1
  cases matched with
  | ends here there => exact .inl ⟨here, there⟩
  | same alike => exact .inr ⟨inside alike.here, inside alike.there⟩
  | tee here set => exact .inr ⟨inside here, inside set⟩
  | otherwise here there => exact .inr ⟨inside here, inside there⟩
  | cond alike => exact .inr ⟨inside alike.here, inside alike.there⟩

theorem Pauses.le_size (pauses : f.Pauses g R q q') : q ≤ f.size := by
  induction pauses with
  | pause _ _ _ ih => exact ih
  | now matched =>
    rcases matched.ends_or_inside with ⟨ends, -⟩ | ⟨inside, -⟩
    · exact Nat.le_of_eq ends
    · exact Nat.le_of_lt inside

/-- Only the end of a body is related to the end of the other one. -/
theorem Layout.finished (layout : f.Layout g R) (related : R q g.size) : q = f.size := by
  cases layout.pauses related with
  | pause there => exact (Nat.lt_irrefl _ (Array.getElem?_eq_some_iff.mp there).1).elim
  | now matched =>
    rcases matched.ends_or_inside with ⟨ends, -⟩ | ⟨-, inside⟩
    · exact ends
    · exact (Nat.lt_irrefl _ inside).elim

/-- A function is a layout of its own code. -/
theorem Layout.identity (f : Function) : f.Layout f fun q q' => q' = q ∧ q ≤ f.size where
  params := rfl
  locals := rfl
  starts := ⟨rfl, Nat.zero_le _⟩
  finishes := ⟨rfl, Nat.le_refl _⟩
  pauses := by
    rintro q q' ⟨rfl, within⟩
    rcases Nat.eq_or_lt_of_le within with rfl | bound
    · exact .now (.ends rfl rfl)
    · have next := Array.getElem?_eq_getElem bound
      refine .now (.same ⟨next, next, ⟨rfl, within⟩, ⟨rfl, bound⟩, fun _ => ⟨rfl, f.afterEnd_le_size q'⟩⟩ ?_)
      rintro type isCond
      rw [isCond] at next
      cases found : f.matchingElse q' with
      | none => exact .none
      | some elsePc =>
        obtain ⟨-, otherwise⟩ := matchingElse_spec next found
        exact .some ⟨rfl, (Array.getElem?_eq_some_iff.mp otherwise).1⟩

end Function

/-- Scopes that differ only in targets that are related. -/
structure Scope.Shadows (R : Nat → Nat → Prop) (s t : Scope) : Prop where
  stack : t.stack = s.stack
  type : t.type = s.type
  target : R s.target t.target

/-- Frames of two layouts of the same code that differ only in positions that are related. -/
structure Frame.Shadows (R : Nat → Nat → Prop) (f g : Frame) : Prop where
  layout : f.function.Layout g.function R
  base : g.base = f.base
  inner : List.Forall₂ (Scope.Shadows R) f.inner g.inner
  locals : g.locals = f.locals
  pc : R f.pc g.pc

theorem Frame.enterElse_of_none {f : Frame} {pc : Nat} {type : BlockType}
    (lacks : f.function.matchingElse pc = none) :
    f.enterElse pc type = f.goto (f.function.afterEnd pc) := by
  simp only [enterElse, lacks]

theorem Frame.enterElse_of_some {f : Frame} {pc elsePc : Nat} {type : BlockType}
    (found : f.function.matchingElse pc = some elsePc) :
    f.enterElse pc type = (f.goto (elsePc + 1)).enter type (f.function.afterEnd pc) := by
  simp only [enterElse, found]

namespace Frame.Shadows

variable {R : Nat → Nat → Prop} {f g : Frame}

theorem entering {f g : Function} (layout : f.Layout g R) (args : List Value) :
    (Frame.entering f args).Shadows R (Frame.entering g args) where
  layout := layout
  base := rfl
  inner := .nil
  locals := congrArg (fun types : List ValueType => args ++ types.map ValueType.zero) layout.locals
  pc := layout.starts

variable (shadows : f.Shadows R g)
include shadows

theorem stack : g.stack = f.stack := by
  obtain ⟨function, base, inner, locals, pc⟩ := f
  obtain ⟨function', base', inner', locals', pc'⟩ := g
  obtain ⟨-, base, scopes, -, -⟩ := shadows
  cases scopes with
  | nil => exact base
  | cons innermost => exact innermost.stack

theorem results : g.results = f.results := congrArg OperandStack.toList shadows.stack

theorem length_inner : g.inner.length = f.inner.length := shadows.inner.length_eq.symm

theorem goto {q q' : Nat} (related : R q q') : (f.goto q).Shadows R (g.goto q') :=
  { shadows with pc := related }

theorem withStack (s : OperandStack) : (f.withStack s).Shadows R (g.withStack s) := by
  obtain ⟨function, base, inner, locals, pc⟩ := f
  obtain ⟨function', base', inner', locals', pc'⟩ := g
  obtain ⟨layout, base, scopes, locals, pc⟩ := shadows
  cases scopes with
  | nil => exact ⟨layout, rfl, .nil, locals, pc⟩
  | cons innermost outer => exact ⟨layout, base, .cons ⟨rfl, innermost.type, innermost.target⟩ outer, locals, pc⟩

theorem withLocals (locals : List Value) : { f with locals }.Shadows R { g with locals } :=
  { shadows with locals := rfl }

theorem extend (values : List Value) : (f.extend values).Shadows R (g.extend values) := by
  unfold Frame.extend
  rw [shadows.stack]
  exact shadows.withStack _

theorem enter (type : BlockType) {target target' : Nat} (related : R target target') :
    (f.enter type target).Shadows R (g.enter type target') :=
  { shadows with inner := .cons ⟨rfl, rfl, related⟩ shadows.inner }

theorem unwind (n : Nat) : (f.unwind n).Shadows R (g.unwind n) where
  layout := shadows.layout
  base := shadows.base
  inner := List.forall₂_drop (n + 1) shadows.inner
  locals := shadows.locals
  pc := by
    have scopes := rel_getElem? shadows.inner n
    unfold Frame.unwind
    generalize f.inner[n]? = left at scopes
    generalize g.inner[n]? = right at scopes
    cases scopes with
    | none => exact shadows.layout.finishes
    | some related => exact related.target

theorem leave : f.leave.2.Shadows R g.leave.2 := by
  obtain ⟨function, base, inner, locals, pc⟩ := f
  obtain ⟨function', base', inner', locals', pc'⟩ := g
  obtain ⟨layout, base, scopes, locals, pc⟩ := shadows
  cases scopes with
  | nil => exact ⟨layout, base, .nil, locals, layout.finishes⟩
  | cons innermost outer => exact ⟨layout, base, outer, locals, pc⟩

theorem enterElse {q q' : Nat} (type : BlockType)
    (alternatives : Option.Rel (fun e e' => R (e + 1) (e' + 1)) (f.function.matchingElse q)
      (g.function.matchingElse q'))
    (behind : R (f.function.afterEnd q) (g.function.afterEnd q')) :
    (f.enterElse q type).Shadows R (g.enterElse q' type) := by
  unfold Frame.enterElse
  generalize f.function.matchingElse q = left at alternatives
  generalize g.function.matchingElse q' = right at alternatives
  cases alternatives with
  | none => exact shadows.goto behind
  | some related => exact (shadows.goto related).enter type behind

end Frame.Shadows

namespace Workspace

/-- Workspaces whose frames shadow each other, with the same globals. -/
structure Shadows (R : Nat → Nat → Prop) (w w' : Workspace) : Prop where
  frame : w.frame.Shadows R w'.frame
  globals : w'.globals = w.globals

/-- What the same instruction does to two workspaces: it leaves one that shadows the other again, or it
fails on both with the same error and the same globals. -/
inductive Agree (R : Nat → Nat → Prop) :
    EStateM.Result Error Workspace Unit → EStateM.Result Error Workspace Unit → Prop
  | ok {w w' : Workspace} (shadows : w.Shadows R w') : Agree R (.ok () w) (.ok () w')
  | error {w w' : Workspace} (e : Error) (globals : w'.globals = w.globals) : Agree R (.error e w) (.error e w')

namespace Shadows

variable {R : Nat → Nat → Prop} {w w' : Workspace} (shadows : w.Shadows R w')
include shadows

theorem operands : w'.operands = w.operands := by
  unfold Workspace.operands
  rw [shadows.frame.stack, shadows.frame.locals, shadows.globals]

theorem withOperands (o : Operands) : (w.withOperands o).Shadows R (w'.withOperands o) :=
  ⟨(shadows.frame.withLocals o.locals).withStack o.stack, rfl⟩

theorem withStack (s : OperandStack) :
    Workspace.Shadows R { w with frame := w.frame.withStack s } { w' with frame := w'.frame.withStack s } :=
  ⟨shadows.frame.withStack s, shadows.globals⟩

end Shadows

end Workspace

namespace Instruction

variable {R : Nat → Nat → Prop} {w w' : Workspace} {q q' : Nat}

open Workspace

private theorem plain_shadows {i : Instruction} (plain : i.isPlain = true) (shadows : w.Shadows R w') :
    Agree R (i.effect q w) (i.effect q' w') := by
  rw [effect_of_isPlain plain, effect_of_isPlain plain, shadows.operands]
  cases i.compute w.operands with
  | ok _ o => exact .ok (shadows.withOperands o)
  | error e o => exact .error e rfl

private theorem br_shadows {label : UInt32} (shadows : w.Shadows R w') :
    Agree R ((br label).effect q w) ((br label).effect q' w') := by
  rw [effect_br, effect_br, Frame.branch_eq, Frame.branch_eq, shadows.frame.length_inner]
  by_cases within : label.toNat ≤ w.frame.inner.length
  · rw [if_pos within, if_pos within]
    exact .ok ⟨shadows.frame.unwind _, shadows.globals⟩
  · rw [if_neg within, if_neg within]
    exact .error _ shadows.globals

/-- An instruction that is the same at related positions does the same to frames that are there. -/
theorem effect_shadows {i : Instruction} (shadows : w.Shadows R w') (notCall : ∀ index, i ≠ .call index)
    (alike : w.frame.function.Alike w'.frame.function R i q q')
    (alternatives : ∀ type, i = .enter .cond type →
      Option.Rel (fun e e' => R (e + 1) (e' + 1)) (w.frame.function.matchingElse q)
        (w'.frame.function.matchingElse q')) :
    Agree R (i.effect q w) (i.effect q' w') := by
  have behind := alike.behind
  obtain ⟨frame, globals⟩ := id shadows
  cases i with
  | call index => exact (notCall index rfl).elim
  | enter kind type =>
    cases kind with
    | block => exact .ok ⟨frame.enter type (behind rfl), globals⟩
    | loop => exact .ok ⟨frame.enter type alike.again, globals⟩
    | cond =>
      rw [effect_cond, effect_cond, frame.stack]
      cases w.frame.stack.topFirst with
      | nil => exact .error _ globals
      | cons v below =>
        refine .ok ⟨?_, globals⟩
        have taken := frame.withStack ⟨below⟩
        dsimp only
        split
        · exact taken.enter type (behind rfl)
        · apply taken.enterElse type
          · rw [Frame.function_withStack, Frame.function_withStack]
            exact alternatives type rfl
          · rw [Frame.function_withStack, Frame.function_withStack]
            exact behind rfl
  | otherwise =>
    have left := frame.unwind 0
    rw [← Frame.exit_eq_unwind, ← Frame.exit_eq_unwind] at left
    exact .ok ⟨left, globals⟩
  | close => exact .ok ⟨frame.leave, globals⟩
  | br label => exact br_shadows shadows
  | brIf label =>
    rw [effect_brIf, effect_brIf, frame.stack]
    cases w.frame.stack.topFirst with
    | nil => exact .error _ globals
    | cons v below =>
      have taken := shadows.withStack ⟨below⟩
      dsimp only
      split
      · exact br_shadows taken
      · exact .ok taken
  | _ => exact plain_shadows rfl shadows

end Instruction

end ScopeMachine
