import ScopeMachine.Proofs.Layout.Correspondence
import ScopeMachine.Proofs.Lockstep
import ScopeMachine.Proofs.Recast

/-! # Functions under other indices

Functions may stand under other indices if all calls are changed accordingly. A relation between the
indices of two machines says which functions correspond: as calls are the only instructions that know of
indices, both machines then run in lockstep (`Machine.lockstep_renumbered`) and corresponding functions
are started alike.
-/

namespace ScopeMachine

/-- The same instruction, except that calls may go to functions that correspond. -/
inductive Instruction.Renumbered (R : UInt32 → UInt32 → Prop) : Instruction → Instruction → Prop
  | call {a b : UInt32} (related : R a b) : Renumbered R (.call a) (.call b)
  | same {i : Instruction} (notCall : ∀ index, i ≠ .call index) : Renumbered R i i

namespace Function

/-- Functions that differ in the indices of the functions that they call. -/
structure Renumbered (R : UInt32 → UInt32 → Prop) (f g : Function) : Prop where
  params : g.params = f.params
  results : g.results = f.results
  locals : g.locals = f.locals
  body : List.Forall₂ (Instruction.Renumbered R) f.body.toList g.body.toList

variable {f g : Function} {R : UInt32 → UInt32 → Prop}

/-- To change what is called changes no scope. -/
theorem Renumbered.sameScopes (renumbered : f.Renumbered R g) : f.SameScopes g := by
  apply sameScopes_of_bodies renumbered.body
  intro i j related size pc o
  cases related <;> rfl

/-- At every position stand instructions that correspond. -/
theorem Renumbered.rel_getElem? (renumbered : f.Renumbered R g) (pc : Nat) :
    Option.Rel (Instruction.Renumbered R) f.body[pc]? g.body[pc]? := by
  rw [← Array.getElem?_toList, ← Array.getElem?_toList]
  exact ScopeMachine.rel_getElem? renumbered.body pc

end Function

namespace Frame

/-- The same frame of another function. -/
def withFunction (g : Function) (f : Frame) : Frame := { f with function := g }

theorem withFunction_eq_recast (g : Function) (f : Frame) : f.withFunction g = f.recast (fun _ => g) id := by
  have scopes : f.inner.map (Scope.retyped id) = f.inner := List.map_id _
  rw [recast, scopes]
  rfl

theorem withStack_withFunction (f : Frame) (g : Function) (s : OperandStack) :
    (f.withFunction g).withStack s = (f.withStack s).withFunction g := by
  rw [withFunction_eq_recast, withStack_recast, withFunction_eq_recast]

end Frame

namespace Workspace

/-- The same workspace with the frame of another function. -/
def withFunction (g : Function) (w : Workspace) : Workspace := { w with frame := w.frame.withFunction g }

/-- The same outcome with the frame of another function. -/
def inFunction (g : Function) : EStateM.Result Error Workspace Unit → EStateM.Result Error Workspace Unit
  | .ok _ w => .ok () (w.withFunction g)
  | .error e w => .error e (w.withFunction g)

theorem withFunction_eq_recast (g : Function) (w : Workspace) : w.withFunction g = w.recast (fun _ => g) id :=
  congrArg (Workspace.mk · w.globals) (w.frame.withFunction_eq_recast g)

theorem inFunction_eq_onState (g : Function) (result : EStateM.Result Error Workspace Unit) :
    inFunction g result = onState (recast (fun _ => g) id) result := by
  cases result with
  | ok _ w => exact congrArg _ (w.withFunction_eq_recast g)
  | error e w => exact congrArg _ (w.withFunction_eq_recast g)

end Workspace

/-- What an instruction does in a frame depends on the function by its scopes only. -/
theorem Instruction.effect_inFunction {w : Workspace} {g : Function} (pc : Nat) (i : Instruction)
    (same : w.frame.function.SameScopes g) :
    i.effect pc (w.withFunction g) = Workspace.inFunction g (i.effect pc w) := by
  have acts : (i.retyped id).effect pc (w.recast (fun _ => g) id) = _ := i.effect_recast pc same
  rw [w.withFunction_eq_recast, Workspace.inFunction_eq_onState, ← acts, i.retyped_id]

/-- Frames of functions that differ in the indices of the functions that they call, otherwise the same. -/
structure Frame.Renumbered (R : UInt32 → UInt32 → Prop) (f g : Frame) : Prop where
  function : f.function.Renumbered R g.function
  same : g = f.withFunction g.function

namespace Frame.Renumbered

variable {R : UInt32 → UInt32 → Prop} {f g : Frame}

theorem entering {f g : Function} (renumbered : f.Renumbered R g) (args : List Value) :
    (Frame.entering f args).Renumbered R (Frame.entering g args) where
  function := renumbered
  same := by
    unfold Frame.entering withFunction
    rw [renumbered.locals]

variable (renumbered : f.Renumbered R g)
include renumbered

theorem stack : g.stack = f.stack := by
  rw [renumbered.same]
  rfl

theorem results : g.results = f.results := congrArg OperandStack.toList renumbered.stack

theorem pc : g.pc = f.pc := by
  rw [renumbered.same]
  rfl

theorem goto (pc : Nat) : (f.goto pc).Renumbered R (g.goto pc) where
  function := renumbered.function
  same := congrArg (Frame.goto pc) renumbered.same

theorem withStack (s : OperandStack) : (f.withStack s).Renumbered R (g.withStack s) where
  function := by
    rw [function_withStack, function_withStack]
    exact renumbered.function
  same := by
    rw [function_withStack, ← withStack_withFunction, ← renumbered.same]

theorem extend (values : List Value) : (f.extend values).Renumbered R (g.extend values) := by
  unfold Frame.extend
  rw [renumbered.stack]
  exact renumbered.withStack _

theorem instruction? : Option.Rel (Instruction.Renumbered R) f.instruction? g.instruction? := by
  unfold Frame.instruction?
  rw [renumbered.pc]
  exact renumbered.function.rel_getElem? f.pc

theorem finished : g.finished = f.finished := by
  unfold Frame.finished
  rw [renumbered.pc, renumbered.function.sameScopes.size]

end Frame.Renumbered

namespace Machine

variable {R : UInt32 → UInt32 → Prop} {m m' : Machine}

/-- Machines on which functions correspond, and so do the frames; all else is the same. -/
structure Renumbered (R : UInt32 → UInt32 → Prop) (m m' : Machine) : Prop where
  known {a b : UInt32} (related : R a b) : ∃ f g, m.functions[a.toNat]? = some f ∧
    m'.functions[b.toNat]? = some g ∧ f.Renumbered R g
  frames : List.Forall₂ (Frame.Renumbered R) m.frames m'.frames
  globals : m'.globals = m.globals
  results : m'.results = m.results
  maxDepth : m'.maxDepth = m.maxDepth

namespace Renumbered

theorem retire (renumbered : m.Renumbered R m') : m.retire.Renumbered R m'.retire := by
  obtain ⟨functions, globals, exports, frames, results, maxDepth⟩ := m
  obtain ⟨functions', globals', exports', frames', results', maxDepth'⟩ := m'
  obtain ⟨known, stack, rfl, rfl, rfl⟩ := renumbered
  cases stack with
  | nil => exact ⟨known, .nil, rfl, rfl, rfl⟩
  | cons active callers =>
    cases callers with
    | nil => exact ⟨known, .nil, rfl, active.results, rfl⟩
    | cons caller callers =>
      refine ⟨known, .cons ?_ callers, rfl, rfl, rfl⟩
      rw [active.results]
      exact caller.extend _

theorem retireFinished (renumbered : m.Renumbered R m') : m.retireFinished.Renumbered R m'.retireFinished := by
  have retired := renumbered.retire
  have stack := renumbered.frames
  unfold Machine.retireFinished
  generalize m.frames = frames at stack
  generalize m'.frames = frames' at stack
  cases stack with
  | nil => exact renumbered
  | cons active =>
    dsimp only
    rw [active.finished]
    split
    · exact retired
    · exact renumbered

variable {f : Frame} {callers : List Frame}

theorem active (renumbered : m.Renumbered R m') (frames : m.frames = f :: callers) :
    ∃ g callers', m'.frames = g :: callers' ∧ f.Renumbered R g ∧
      List.Forall₂ (Frame.Renumbered R) callers callers' := by
  have stack := renumbered.frames
  rw [frames, List.forall₂_cons_left_iff] at stack
  obtain ⟨g, callers', active, outer, frames'⟩ := stack
  exact ⟨g, callers', frames', active, outer⟩

/-- Calls of functions that correspond open frames that do, or they fail alike. -/
theorem call (renumbered : m.Renumbered R m') (frames : m.frames = f :: callers) {a b : UInt32} (related : R a b) :
    Paired (Renumbered R) (call a m) (call b m') := by
  obtain ⟨h, h', known, known', corresponds⟩ := renumbered.known related
  obtain ⟨g, callers', frames', active, outer⟩ := renumbered.active frames
  have room : m'.maxDepth ≤ m'.frames.length ↔ m.maxDepth ≤ m.frames.length := by
    rw [renumbered.maxDepth, renumbered.frames.length_eq]
  rw [call_of_frames frames, call_of_frames frames', function_eq_ok_iff.mpr known, function_eq_ok_iff.mpr known']
  dsimp only
  by_cases full : m.maxDepth ≤ m.frames.length
  · rw [if_pos full, if_pos (room.mpr full)]
    exact .error _ renumbered.globals
  rw [if_neg full, if_neg (mt room.mp full), corresponds.params]
  unfold Frame.popN
  rw [active.stack]
  cases popped : f.stack.popN h.params.length with
  | error e => exact .error e renumbered.globals
  | ok taken =>
    obtain ⟨args, below⟩ := taken
    have count : args.length = h.params.length :=
      (Frame.popN_eq_ok_iff (f := f) (g := f.withStack below).mp (by rw [Frame.popN, popped]; rfl)).1
    have bound := Frame.bindArgs_eq_ok_iff.mpr ⟨count, rfl⟩
    have bound' := Frame.bindArgs_eq_ok_iff.mpr ⟨corresponds.params ▸ count, rfl⟩
    simp only [Except.map, bound, bound']
    have entered := Frame.Renumbered.entering corresponds args
    exact .ok { renumbered with frames := .cons entered (.cons (active.withStack below) outer) }

/-- A step does the same on both machines. -/
theorem step (renumbered : m.Renumbered R m') (busy : m.frames ≠ []) :
    Paired (Renumbered R) (step m) (step m') := by
  obtain ⟨f, callers, frames⟩ := List.exists_cons_of_ne_nil busy
  obtain ⟨g, callers', frames', active, outer⟩ := renumbered.active frames
  have next := active.instruction?
  generalize here : f.instruction? = left at next
  generalize there : g.instruction? = right at next
  cases next with
  | none =>
    rw [step_of_done frames here, step_of_done frames' there]
    exact .ok renumbered.retire
  | @some i j corresponds =>
    have onward := active.goto (f.pc + 1)
    cases corresponds with
    | @call a b related =>
      have moved : Renumbered R { m with frames := f.goto (f.pc + 1) :: callers }
          { m' with frames := g.goto (f.pc + 1) :: callers' } :=
        { renumbered with frames := .cons onward outer }
      have called := moved.call rfl related
      rw [step_of_call frames here, step_of_call frames' there, active.pc]
      generalize Machine.call a _ = left at called
      generalize Machine.call b _ = right at called
      cases called with
      | ok opened => exact .ok opened.retireFinished
      | error e globals => exact .error e globals
    | same notCall =>
      have same : (f.goto (f.pc + 1)).function.SameScopes g.function := active.function.sameScopes
      have start : (⟨g.goto (f.pc + 1), m'.globals⟩ : Workspace) =
          Workspace.withFunction g.function ⟨f.goto (f.pc + 1), m.globals⟩ := by
        rw [renumbered.globals]
        exact congrArg (Workspace.mk · m.globals) onward.same
      have acts := Instruction.effect_inFunction (w := ⟨f.goto (f.pc + 1), m.globals⟩) f.pc i same
      rw [step_of_effect frames here notCall, step_of_effect frames' there notCall, active.pc, start, acts]
      generalize done : Instruction.effect f.pc _ _ = result
      cases result with
      | error e w => exact .error e rfl
      | ok _ w =>
        have moves := (Instruction.effect_eq_ok_iff notCall).mp done
        have function : w.frame.function = f.function := moves.routes.2.1
        have moved : w.frame.Renumbered R (w.frame.withFunction g.function) := ⟨function ▸ active.function, rfl⟩
        exact .ok (retireFinished { renumbered with frames := .cons moved outer, globals := rfl })

theorem lockstep : Lockstep (Renumbered R) where
  idle renumbered := by
    have length := renumbered.frames.length_eq
    rw [← List.length_eq_zero_iff, length, List.length_eq_zero_iff]
  results := results
  globals := globals
  step := step

/-- On idle machines functions that correspond are started alike. -/
theorem start (renumbered : m.Renumbered R m') (idle : m.frames = []) {a b : UInt32} (related : R a b)
    (args : List Value) : Paired (Renumbered R) (start a args m) (start b args m') := by
  obtain ⟨f, g, known, known', corresponds⟩ := renumbered.known related
  have idle' : m'.frames = [] := (lockstep.idle renumbered).mp idle
  rw [start_of_known idle known, start_of_known idle' known', corresponds.params]
  split
  · exact .ok { renumbered with frames := .cons (.entering corresponds args) .nil, results := rfl }
  · exact .error _ renumbered.globals

/-- Invocations of functions that correspond, one after the other, have the same answers. -/
theorem invokeAll?_iff (renumbered : m.Renumbered R m') (idle : m.frames = [])
    {calls calls' : List (UInt32 × List Value)}
    (related : List.Forall₂ (fun call call' => R call.1 call'.1 ∧ call.2 = call'.2) calls calls')
    (answers : List Answer) :
    (∃ fuel, invokeAll? fuel calls m = some answers) ↔ ∃ fuel, invokeAll? fuel calls' m' = some answers := by
  induction related generalizing m m' answers with
  | nil => exact Iff.rfl
  | @cons call call' calls calls' head _ ih =>
    obtain ⟨a, args⟩ := call
    obtain ⟨b, _⟩ := call'
    obtain ⟨related, rfl⟩ := head
    have reset (globals : List Value) :
        Renumbered R { m.reset with globals } { m'.reset with globals } :=
      { renumbered with frames := .nil, globals := rfl, results := rfl }
    have later (globals : List Value) (rest : List Answer) := ih (reset globals) rfl rest
    have first (answer : Answer) :
        (∃ fuel, (invoke? fuel a args m).map Answer.ofResult = some answer) ↔
          ∃ fuel, (invoke? fuel b args m').map Answer.ofResult = some answer := by
      simp only [lockstep.map_invoke? (renumbered.start idle related args)]
    simp only [exists_invokeAll?_cons_iff, first, later]

end Renumbered

end Machine

end ScopeMachine
