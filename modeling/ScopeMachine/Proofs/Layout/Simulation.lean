import ScopeMachine.Proofs.Holding
import ScopeMachine.Proofs.Layout.Correspondence

/-! # Machines with another layout of the same code

A machine shadows another one if its functions are layouts of the same code and its frames are at
related positions. One step of the machine that is shadowed is one or more steps of the machine that
shadows (`Machine.emulates_step`): it may have to pause first, to do in two instructions what the
other one does in one, or to close a scope that the other one has not opened. That a closing
instruction may be replaced by a jump to the target of the scope rests on the scopes that are open
there, so the frames that are shadowed have to be tracked.
-/

namespace ScopeMachine

/-- To write a local and leave the value is to take it and to put it back. -/
theorem Instruction.compute_localTee (index : UInt32) (o : Operands) :
    (localTee index).compute o = match (localSet index).compute o with
      | .ok _ o => (localGet index).compute o
      | .error e o => .error e o := by
  simp only [compute]
  by_cases known : index.toNat < o.locals.length
  · simp only [known, ↓reduceIte]
    cases top : o.stack.topFirst with
    | nil => rfl
    | cons v below =>
      have stack : OperandStack.push v ⟨below⟩ = o.stack := congrArg OperandStack.mk top.symm
      simp only [List.getElem?_set_self known, stack]
  · simp only [known, ↓reduceIte]

namespace Machine

/-- Machines whose functions are layouts of the same code and whose frames shadow each other; all else
is the same. -/
structure Shadows (m m' : Machine) : Prop where
  functions : List.Forall₂ Function.Rearranged m.functions m'.functions
  frames : List.Forall₂ (fun f g => ∃ R, Frame.Shadows R f g) m.frames m'.frames
  globals : m'.globals = m.globals
  results : m'.results = m.results
  maxDepth : m'.maxDepth = m.maxDepth

/-- What the same action does to two machines: it leaves one that shadows the other again, or it fails
on both with the same error and the same globals. -/
inductive Agree : EStateM.Result Error Machine Unit → EStateM.Result Error Machine Unit → Prop
  | ok {n n' : Machine} (shadows : n.Shadows n') : Agree (.ok () n) (.ok () n')
  | error {n n' : Machine} (e : Error) (globals : n'.globals = n.globals) : Agree (.error e n) (.error e n')

/-- What some steps of a machine do, given what one step of the machine that it shadows does. -/
inductive Emulates (m' : Machine) : EStateM.Result Error Machine Unit → Prop
  | ok {n n' : Machine} {k : Nat} (steps : Steps (k + 1) m' n') (shadows : n.Shadows n') :
      Emulates m' (.ok () n)
  | error {n n' : Machine} {k : Nat} {e : Error} (traps : Traps k m' e n') (globals : n'.globals = n.globals) :
      Emulates m' (.error e n)

variable {m m' : Machine} {f g : Frame} {callers callers' : List Frame} {R : Nat → Nat → Prop}

theorem Shadows.retire (shadows : m.Shadows m') : m.retire.Shadows m'.retire := by
  obtain ⟨functions, globals, exports, frames, results, maxDepth⟩ := m
  obtain ⟨functions', globals', exports', frames', results', maxDepth'⟩ := m'
  obtain ⟨table, stack, rfl, rfl, rfl⟩ := shadows
  cases stack with
  | nil => exact ⟨table, .nil, rfl, rfl, rfl⟩
  | cons active callers =>
    obtain ⟨R, active⟩ := active
    cases callers with
    | nil => exact ⟨table, .nil, rfl, active.results, rfl⟩
    | cons caller callers =>
      obtain ⟨S, caller⟩ := caller
      refine ⟨table, .cons ⟨S, ?_⟩ callers, rfl, rfl, rfl⟩
      rw [active.results]
      exact caller.extend _

/-- The active frames of two machines of which one shadows the other. -/
structure Active (R : Nat → Nat → Prop) (m m' : Machine) (f g : Frame) (callers callers' : List Frame) :
    Prop where
  shadows : m.Shadows m'
  frames : m.frames = f :: callers
  frames' : m'.frames = g :: callers'
  active : f.Shadows R g
  callers : List.Forall₂ (fun f g => ∃ R, Frame.Shadows R f g) callers callers'

theorem Shadows.active (shadows : m.Shadows m') (frames : m.frames = f :: callers) :
    ∃ R g callers', Active R m m' f g callers callers' := by
  have stack := shadows.frames
  rw [frames] at stack
  cases frames' : m'.frames with
  | nil =>
    rw [frames'] at stack
    cases stack
  | cons g callers' =>
    rw [frames'] at stack
    cases stack with
    | cons head rest =>
      obtain ⟨R, active⟩ := head
      exact ⟨R, g, callers', shadows, frames, frames', active, rest⟩

namespace Active

section
variable {globals globals' : List Value} (active : Active R m m' f g callers callers')
include active

/-- The machines after both active frames and the globals have changed alike. -/
theorem update {f₁ g₁ : Frame} (frame : f₁.Shadows R g₁) (same : globals' = globals) :
    Shadows { m with frames := f₁ :: callers, globals := globals }
      { m' with frames := g₁ :: callers', globals := globals' } :=
  { active.shadows with frames := .cons ⟨R, frame⟩ active.callers, globals := same }

theorem busy : m'.frames ≠ [] := by
  rw [active.frames']
  exact List.cons_ne_nil _ _

theorem here : { m' with frames := g.goto g.pc :: callers' } = m' := by
  obtain ⟨functions, globals, exports, frames, results, maxDepth⟩ := m'
  cases active.frames'
  rfl

theorem goto {q' : Nat} (related : R f.pc q') :
    Active R m { m' with frames := g.goto q' :: callers' } f (g.goto q') callers callers' where
  shadows := { active.shadows with
    frames := active.frames ▸ .cons ⟨R, active.active.goto related⟩ active.callers }
  frames := active.frames
  frames' := rfl
  active := active.active.goto related
  callers := active.callers

/-- As long as a frame is not retired, the frame that shadows it is not. -/
theorem not_retired {i : Instruction} (next : f.instruction? = some i) : m'.retireFinished = m' := by
  apply retireFinished_of_not_end active.frames'
  intro ends
  have related := active.active.pc
  rw [ends] at related
  exact Nat.ne_of_lt (Array.getElem?_eq_some_iff.mp next).1 (active.active.layout.finished related)

end

/-- A frame that pauses reaches the instruction that does what is done at the related position. -/
theorem exists_steps_matched {f : Function} {q q' : Nat} (m' : Machine) (callers' : List Frame)
    (related : R q q') (pauses : f.Pauses g.function R q q') :
    ∃ k q₁, R q q₁ ∧ f.Matches g.function R q q₁ ∧
      Steps k (retireFinished { m' with frames := g.goto q' :: callers' })
        (retireFinished { m' with frames := g.goto q₁ :: callers' }) := by
  induction pauses with
  | @now q' matched => exact ⟨0, q', related, matched, .refl _⟩
  | @pause q' there next _ ih =>
    obtain ⟨k, q₁, related, matched, steps⟩ := ih next
    have nop : (g.goto q').instruction? = some .nop := there
    refine ⟨k + 1, q₁, related, matched, ?_⟩
    rw [retireFinished_of_next rfl nop]
    exact .cons (List.cons_ne_nil _ _) (step_of_effect rfl nop nofun) steps

/-- A frame that pauses at the end of its body is retired at last. -/
theorem exists_steps_retire (active : Active R m m' f g callers callers') {q' : Nat}
    (finished : f.pc = f.function.size) (related : R f.pc q')
    (pauses : f.function.Pauses g.function R f.pc q') :
    ∃ k n', Steps k (retireFinished { m' with frames := g.goto q' :: callers' }) n' ∧ m.retire.Shadows n' := by
  obtain ⟨k, q₁, related, matched, steps⟩ := exists_steps_matched m' callers' related pauses
  have arrived := active.goto related
  have ends : q₁ = g.function.size := by
    rcases matched.ends_or_inside with ⟨-, ends⟩ | ⟨inside, -⟩
    · exact ends
    · exact (Nat.ne_of_lt inside finished).elim
  rw [retireFinished_of_end arrived.frames' ends] at steps
  exact ⟨k, _, steps, arrived.shadows.retire⟩

end Active

/-- When a frame is retired, the frame that shadows it is retired too, after some steps if it has to
pause. -/
theorem Shadows.exists_steps_retireFinished (shadows : m.Shadows m') :
    ∃ k n', Steps k m'.retireFinished n' ∧ m.retireFinished.Shadows n' := by
  cases frames : m.frames with
  | nil =>
    have none := shadows.frames
    rw [frames, List.forall₂_nil_left_iff] at none
    refine ⟨0, m', ?_, ?_⟩
    · rw [retireFinished, none]
      exact .refl _
    · rw [retireFinished, frames]
      exact shadows
  | cons f callers =>
    obtain ⟨R, g, callers', active⟩ := shadows.active frames
    have related := active.active.pc
    have layout := active.active.layout
    by_cases finished : f.pc = f.function.size
    · rw [retireFinished_of_end frames finished]
      have retires := active.exists_steps_retire finished related (layout.pauses related)
      rwa [active.here] at retires
    · have unfinished : g.pc ≠ g.function.size := fun ends => finished (layout.finished (ends ▸ related))
      rw [retireFinished_of_not_end frames finished, retireFinished_of_not_end active.frames' unfinished]
      exact ⟨0, m', .refl _, shadows⟩

namespace Emulates

variable {m'' : Machine} {k : Nat} {result : EStateM.Result Error Machine Unit}

theorem after (steps : Steps k m' m'') (rest : m''.Emulates result) : m'.Emulates result := by
  cases rest with
  | ok further shadows => exact .ok (Nat.add_assoc _ _ _ ▸ steps.append further) shadows
  | error traps globals => exact .error (.append steps traps) globals

/-- A machine that has arrived shadows the other one after its frame is retired, too. -/
theorem arrives {n n' : Machine} (steps : Steps (k + 1) m' n'.retireFinished) (shadows : n.Shadows n') :
    m'.Emulates (.ok () n.retireFinished) := by
  obtain ⟨j, settled, further, shadows⟩ := shadows.exists_steps_retireFinished
  exact .ok (Nat.add_right_comm _ _ _ ▸ steps.append further) shadows

end Emulates

/-- A call that is made from frames that shadow each other opens such frames, or it is refused alike. -/
theorem Active.call_agree (active : Active R m m' f g callers callers') (index : UInt32) :
    Agree (call index m) (call index m') := by
  have ⟨functions, frames, globals, results, maxDepth⟩ := active.shadows
  have known := rel_getElem? functions index.toNat
  have room : m'.maxDepth ≤ m'.frames.length ↔ m.maxDepth ≤ m.frames.length := by
    rw [maxDepth, frames.length_eq]
  rw [call_of_frames active.frames, call_of_frames active.frames', function, function]
  generalize m.functions[index.toNat]? = left at known
  generalize m'.functions[index.toNat]? = right at known
  cases known with
  | none => exact .error _ globals
  | @some f₁ g₁ rearranged =>
    obtain ⟨S, layout⟩ := rearranged
    dsimp only
    by_cases full : m.maxDepth ≤ m.frames.length
    · rw [if_pos full, if_pos (room.mpr full)]
      exact .error _ globals
    rw [if_neg full, if_neg (mt room.mp full), layout.params]
    unfold Frame.popN
    rw [active.active.stack]
    cases popped : f.stack.popN f₁.params.length with
    | error e => exact .error e globals
    | ok taken =>
      obtain ⟨args, below⟩ := taken
      have count : args.length = f₁.params.length :=
        (Frame.popN_eq_ok_iff (f := f) (g := f.withStack below).mp (by rw [Frame.popN, popped]; rfl)).1
      have bound := Frame.bindArgs_eq_ok_iff.mpr ⟨count, rfl⟩
      have bound' := Frame.bindArgs_eq_ok_iff.mpr ⟨layout.params ▸ count, rfl⟩
      simp only [Except.map, bound, bound']
      have entered := Frame.Shadows.entering layout args
      exact .ok ⟨functions, .cons ⟨S, entered⟩ (.cons ⟨R, active.active.withStack below⟩ active.callers),
        globals, results, maxDepth⟩

namespace Emulates

theorem fails {n n' : Machine} {e : Error} (failed : step m' = .error e n') (globals : n'.globals = n.globals) :
    m'.Emulates (.error e n) :=
  .error (k := 0) ⟨m', .refl m', failed⟩ globals

section
variable (active : Active R m m' f g callers callers')
include active

theorem acts {n n' : Machine} (success : step m' = .ok () n'.retireFinished) (shadows : n.Shadows n') :
    m'.Emulates (.ok () n.retireFinished) :=
  .arrives (k := 0) (.single active.busy success) shadows

/-- The same instruction at related positions does the same in one step. -/
theorem same {i : Instruction} (alike : f.function.Alike g.function R i f.pc g.pc)
    (alternatives : ∀ type, i = .enter .cond type →
      Option.Rel (fun e e' => R (e + 1) (e' + 1)) (f.function.matchingElse f.pc)
        (g.function.matchingElse g.pc)) :
    m'.Emulates (step m) := by
  have onward := active.active.goto alike.next
  by_cases isCall : ∃ index, i = .call index
  · obtain ⟨index, rfl⟩ := isCall
    have passed : Active R { m with frames := f.goto (f.pc + 1) :: callers }
        { m' with frames := g.goto (g.pc + 1) :: callers' } (f.goto (f.pc + 1)) (g.goto (g.pc + 1))
        callers callers' :=
      ⟨active.update onward active.shadows.globals, rfl, rfl, onward, active.callers⟩
    have acts := step_of_call active.frames' alike.there
    have agree := passed.call_agree index
    rw [step_of_call active.frames alike.here]
    generalize call index _ = left at agree
    generalize call index _ = right at agree acts
    cases agree with
    | ok shadows => exact .acts active acts shadows
    | error e globals => exact .fails acts globals
  · have notCall : ∀ index, i ≠ .call index := fun index same => isCall ⟨index, same⟩
    have acts := step_of_effect active.frames' alike.there notCall
    have start : Workspace.Shadows R ⟨f.goto (f.pc + 1), m.globals⟩ ⟨g.goto (g.pc + 1), m'.globals⟩ :=
      ⟨onward, active.shadows.globals⟩
    have agree := Instruction.effect_shadows start notCall alike alternatives
    rw [step_of_effect active.frames alike.here notCall]
    generalize i.effect f.pc _ = left at agree
    generalize i.effect g.pc _ = right at agree acts
    cases agree with
    | ok shadows => exact .acts active acts (active.update shadows.frame shadows.globals)
    | error e globals => exact .fails acts globals

/-- A value that is taken and put back is written in two steps. -/
theorem tee {index : UInt32} (here : f.function.body[f.pc]? = some (.localTee index))
    (set : g.function.body[g.pc]? = some (.localSet index))
    (get : g.function.body[g.pc + 1]? = some (.localGet index)) (next : R (f.pc + 1) (g.pc + 2)) :
    m'.Emulates (step m) := by
  have start : Workspace.Shadows R ⟨f.goto (f.pc + 1), m.globals⟩ ⟨g.goto (g.pc + 2), m'.globals⟩ :=
    ⟨active.active.goto next, active.shadows.globals⟩
  have operands : Workspace.operands ⟨g, m'.globals⟩ = Workspace.operands ⟨f, m.globals⟩ := start.operands
  have ends (o : Operands) : Shadows (m.running callers f (f.pc + 1) o) (m'.running callers' g (g.pc + 2) o) :=
    active.update (start.withOperands o).frame rfl
  have own := eq_running active.frames
  have other := eq_running active.frames'
  rw [operands] at other
  generalize Workspace.operands ⟨f, m.globals⟩ = o at own other
  rw [own, step_running _ _ _ here rfl, Instruction.compute_localTee]
  have acts := step_running m' callers' o set rfl
  rw [← other] at acts
  cases written : (Instruction.localSet index).compute o with
  | error e o₁ =>
    rw [written] at acts
    exact .fails acts rfl
  | ok _ o₁ =>
    simp only [written, retireFinished_running get] at acts
    have first := Steps.single active.busy acts
    have acts := step_running m' callers' o₁ get rfl
    dsimp only
    cases read : (Instruction.localGet index).compute o₁ with
    | error e o₂ =>
      rw [read] at acts
      exact .error ⟨_, first, acts⟩ rfl
    | ok _ o₂ =>
      rw [read] at acts
      exact .arrives (first.append (.single (List.cons_ne_nil _ _) acts)) (ends o₂)

/-- Leaving the innermost scope for its target is to close it if the target is behind the closing
instruction. -/
theorem otherwise {type : BlockType} (here : f.function.body[f.pc]? = some .close)
    (there : g.function.body[g.pc]? = some .otherwise)
    (innermost : (f.function.enclosing f.pc).head?.map f.function.scopeAt = some (type, f.pc + 1))
    (tracks : f.function.Tracks f.shapes f.pc) : m'.Emulates (step m) := by
  have bound : f.pc < f.function.size := (Array.getElem?_eq_some_iff.mp here).1
  have shapes := tracks.inside bound
  rw [← List.head?_map, ← shapes] at innermost
  have closed : (f.goto (f.pc + 1)).leave.2.Shadows R (g.goto (g.pc + 1)).exit := by
    obtain ⟨layout, sameBase, scopes, sameLocals, -⟩ := active.active
    obtain ⟨function, base, inner, locals, pc⟩ := f
    obtain ⟨function', base', inner', locals', pc'⟩ := g
    cases scopes with
    | nil => cases innermost
    | @cons scope _ _ _ head rest =>
      have target : scope.target = pc + 1 := congrArg Prod.snd (Option.some.inj innermost)
      exact ⟨layout, sameBase, rest, sameLocals, target ▸ head.target⟩
  have acts := step_of_effect active.frames' there nofun
  rw [step_of_effect active.frames here nofun]
  exact .acts active acts (active.update closed active.shadows.globals)

/-- To enter an alternative that is closed at once is to pass over the scope. -/
theorem cond {type : BlockType} {elsePc : Nat}
    (alike : f.function.Alike g.function R (.enter .cond type) f.pc g.pc)
    (lacks : f.function.matchingElse f.pc = none) (found : g.function.matchingElse g.pc = some elsePc)
    (closes : g.function.body[elsePc + 1]? = some .close) (skips : R (f.function.afterEnd f.pc) (elsePc + 2)) :
    m'.Emulates (step m) := by
  have onward := active.active.goto alike.next
  have globals := active.shadows.globals
  have acts := step_of_effect active.frames' alike.there nofun
  rw [Instruction.effect_cond, onward.stack] at acts
  rw [step_of_effect active.frames alike.here nofun, Instruction.effect_cond]
  dsimp only at acts ⊢
  cases top : (f.goto (f.pc + 1)).stack.topFirst with
  | nil =>
    rw [top] at acts
    exact .fails acts globals
  | cons v below =>
    rw [top] at acts
    have taken := onward.withStack ⟨below⟩
    by_cases nonzero : v ≠ 0
    · simp only [nonzero, ne_eq, not_false_eq_true, ↓reduceIte] at acts ⊢
      exact .acts active acts (active.update (taken.enter type (alike.behind rfl)) globals)
    · simp only [nonzero, ↓reduceIte] at acts ⊢
      -- One machine passes over the scope, the other one enters its alternative and closes it.
      have own : ((f.goto (f.pc + 1)).withStack ⟨below⟩).function = f.function := Frame.function_withStack _ _
      have other : ((g.goto (g.pc + 1)).withStack ⟨below⟩).function = g.function := Frame.function_withStack _ _
      rw [Frame.enterElse_of_none (own.symm ▸ lacks), own]
      rw [Frame.enterElse_of_some (other.symm ▸ found)] at acts
      generalize (g.goto (g.pc + 1)).withStack ⟨below⟩ = h at taken other acts
      have next : ((h.goto (elsePc + 1)).enter type (h.function.afterEnd g.pc)).instruction? = some .close := by
        rw [← closes, ← other]
        rfl
      rw [retireFinished_of_next rfl next] at acts
      have first := Steps.single active.busy acts
      exact .arrives (first.append (.single (List.cons_ne_nil _ _) (step_of_effect rfl next nofun)))
        (active.update (taken.goto skips) globals)

end

end Emulates

/-- What one step does is done in one or more steps by a machine that shadows. -/
theorem emulates_step (shadows : m.Shadows m') (busy : m.frames ≠ [])
    (tracks : ∀ f ∈ m.frames, f.function.Tracks f.shapes f.pc) : m'.Emulates (step m) := by
  cases frames : m.frames with
  | nil => exact (busy frames).elim
  | cons f callers =>
    obtain ⟨R, g, callers', active⟩ := shadows.active frames
    have related := active.active.pc
    have pauses := active.active.layout.pauses related
    cases next : f.instruction? with
    | none =>
      have finished : f.pc = f.function.size :=
        Nat.le_antisymm pauses.le_size (Array.getElem?_eq_none_iff.mp next)
      rw [step_of_done frames next]
      -- A pause ends with a step that retires the frame, so the first step is taken apart from the others.
      cases pauses with
      | now matched =>
        have done : g.instruction? = none := by
          rcases matched.ends_or_inside with ⟨-, ends⟩ | ⟨inside, -⟩
          · exact Array.getElem?_eq_none (Nat.le_of_eq ends.symm)
          · exact (Nat.ne_of_lt inside finished).elim
        exact .ok (k := 0) (.single active.busy (step_of_done active.frames' done)) shadows.retire
      | pause there further rest =>
        have acts := step_of_effect active.frames' there nofun
        obtain ⟨k, n', steps, shadows⟩ := active.exists_steps_retire finished further rest
        exact .ok (.cons active.busy acts steps) shadows
    | some i =>
      obtain ⟨k, q, related, matched, steps⟩ := Active.exists_steps_matched m' callers' related pauses
      have arrived := active.goto related
      rw [active.here, active.not_retired next, arrived.not_retired next] at steps
      apply Emulates.after steps
      cases matched with
      | ends here => exact (Nat.ne_of_lt (Array.getElem?_eq_some_iff.mp next).1 here).elim
      | same alike alternatives => exact .same arrived alike alternatives
      | tee here set get onward => exact .tee arrived here set get onward
      | otherwise here there innermost =>
        have member : f ∈ m.frames := frames ▸ List.mem_cons_self
        exact .otherwise arrived here there innermost (tracks f member)
      | cond alike lacks found closes skips => exact .cond arrived alike lacks found closes skips

end Machine

end ScopeMachine
