import ScopeMachine.Proofs.Structured.Running

/-! # Machines run structured code

A machine follows the meaning of every form of code, provided that it follows the meaning of the parts
and, for loops and calls, that of whatever they run again with less fuel. There is one lemma for each
form. The two inductions of the meaning itself, on the fuel and on the code, put them together.
-/

namespace ScopeMachine.Machine

variable {m : Machine} {callers : List Frame} {f : Frame} {pc : Nat} {o : Operands}

/-- A machine in front of a piece of code, wherever that is, does what a way of running it says. -/
def Follows (m : Machine) (callers : List Frame) (fuel : Nat) (run : Runner) (c : Code) : Prop :=
  ∀ {f : Frame} {pc : Nat} {tail : List Instruction} (o : Operands),
    f.function.codeFrom pc = c.flatten ++ tail →
      Realizes m callers f pc o fuel (pc + c.flatten.length)
        (run (m.room callers) f.inner.length c o)

/-- A way of running code that every machine follows which has the given procedures laid out. -/
def Simulates (procedures : List Procedure) (fuel : Nat) (run : Runner) : Prop :=
  ∀ (m : Machine) (callers : List Frame) (c : Code), m.functions = procedures.map Procedure.function →
    m.Follows callers fuel run c

/-- A frame at the start of a procedure runs its whole body. -/
theorem Simulates.procedure {procedures : List Procedure} {fuel : Nat} {run : Runner}
    (simulates : Simulates procedures fuel run) (functions : m.functions = procedures.map Procedure.function)
    (callers : List Frame) (p : Procedure) (args globals : List Value) :
    m.Completes callers fuel (m.settled callers (.entering p.function args) 0 (p.entering args globals))
      (run (m.room callers) 0 p.body (p.entering args globals)) := by
  have whole : (Frame.entering p.function args).function.codeFrom 0 = p.body.flatten ++ [] := by
    rw [List.append_nil]
    rfl
  have runs := simulates m callers p.body functions (p.entering args globals) whole
  have size : 0 + p.body.flatten.length = (Frame.entering p.function args).function.size := Nat.zero_add _
  have depth : (Frame.entering p.function args).inner.length = 0 := rfl
  rw [size, depth] at runs
  exact runs.completes rfl

namespace Follows

variable {procedures : List Procedure} {fuel : Nat} {run : Runner} {rest body alternative : Code}

theorem nil : m.Follows callers fuel (Code.execWith procedures run) .nil := by
  intro f pc tail o here
  exact ⟨0, .refl _⟩

theorem plain {i : Instruction} (isPlain : i.isPlain = true)
    (follows : m.Follows callers fuel (Code.execWith procedures run) rest) :
    m.Follows callers fuel (Code.execWith procedures run) (.plain i isPlain rest) := by
  intro f pc tail o here
  have next := Function.getElem?_of_codeFrom here
  have finish : pc + (Code.plain i isPlain rest).flatten.length = pc + 1 + rest.flatten.length := by
    rw [Code.flatten, List.length_cons]
    omega
  rw [finish, Code.execWith]
  cases computed : i.compute o with
  | ok _ o' =>
    have moves : i.Moves pc { frame := f.holding (pc + 1) o, globals := o.globals }
        { frame := f.holding (pc + 1) o', globals := o'.globals } := by
      rw [← Workspace.withOperands_holding f (pc + 1) o o']
      exact .plain isPlain (by rw [Workspace.operands_holding]; exact computed)
    exact (follows o' (Function.codeFrom_succ here)).after (steps_running m callers next moves) (Nat.le_succ _)
  | error e o' =>
    have notCall : ∀ index, i ≠ .call index := by
      rintro index rfl
      cases isPlain
    have failed : i.effect pc { frame := f.holding (pc + 1) o, globals := o.globals } =
        .error e { frame := f.holding (pc + 1) o', globals := o'.globals } := by
      rw [Instruction.effect_of_isPlain isPlain, Workspace.operands_holding, computed]
      simp only [Workspace.withOperands_holding]
    exact ⟨0, _, traps_running m callers next notCall failed, rfl⟩

/-- Where a branch is made, the code does what the branch does. -/
private theorem realizes_branch {i : Instruction} {label : UInt32} {o' : Operands} {finish : Nat}
    (here : f.function.body[pc]? = some i) (notCall : ∀ index, i ≠ .call index)
    (branches : i.effect pc { frame := f.holding (pc + 1) o, globals := o.globals } =
      (Instruction.br label).effect pc { frame := f.holding (pc + 1) o', globals := o'.globals }) :
    Realizes m callers f pc o fuel finish (some (.branch label f.inner.length o')) := by
  rw [Instruction.effect_br, Frame.branch_eq, Frame.length_inner_holding] at branches
  unfold Outcome.branch
  split
  · rename_i within
    rw [if_pos within] at branches
    have steps := steps_running m callers here ((Instruction.effect_eq_ok_iff notCall).mp branches)
    rw [Frame.unwind_holding f (pc + 1) finish] at steps
    exact ⟨within, 1, steps⟩
  · rename_i beyond
    rw [if_neg beyond] at branches
    exact ⟨0, _, traps_running m callers here notCall branches, rfl⟩

theorem br {label : UInt32} : m.Follows callers fuel (Code.execWith procedures run) (.br label rest) := by
  intro f pc tail o here
  exact realizes_branch (Function.getElem?_of_codeFrom here) nofun rfl

/-- Where a condition is taken, it may be missing; otherwise the code goes on as it says. -/
private theorem realizes_onCondition {i : Instruction} {finish : Nat} {next : Bool → Operands → Option Outcome}
    (here : f.function.body[pc]? = some i) (notCall : ∀ index, i ≠ .call index)
    (missing : ∀ w, w.frame.stack.topFirst = [] → i.effect pc w = .error .stackUnderflow w)
    (goesOn : ∀ v below, o.stack.topFirst = v :: below →
      Realizes m callers f pc o fuel finish (next (v ≠ 0) { o with stack := ⟨below⟩ })) :
    Realizes m callers f pc o fuel finish (o.onCondition next) := by
  unfold Operands.onCondition
  cases top : o.stack.topFirst with
  | nil =>
    have empty : (f.holding (pc + 1) o).stack.topFirst = [] := by rw [Frame.stack_holding, top]
    have failed := missing { frame := f.holding (pc + 1) o, globals := o.globals } empty
    exact ⟨0, _, traps_running m callers here notCall failed, rfl⟩
  | cons v below => exact goesOn v below top

theorem brIf {label : UInt32} (follows : m.Follows callers fuel (Code.execWith procedures run) rest) :
    m.Follows callers fuel (Code.execWith procedures run) (.brIf label rest) := by
  intro f pc tail o here
  have next := Function.getElem?_of_codeFrom here
  have finish : pc + (Code.brIf label rest).flatten.length = pc + 1 + rest.flatten.length := by
    rw [Code.flatten, List.length_cons]
    omega
  have notCall : ∀ index, Instruction.brIf label ≠ .call index := by rintro index ⟨⟩
  rw [finish, Code.execWith]
  refine realizes_onCondition next notCall (fun w empty => ?_) fun v below top => ?_
  · simp only [Instruction.effect_brIf, empty]
  have effect : (Instruction.brIf label).effect pc { frame := f.holding (pc + 1) o, globals := o.globals } =
      if v ≠ 0 then (Instruction.br label).effect pc
        { frame := f.holding (pc + 1) { o with stack := ⟨below⟩ }, globals := o.globals }
      else .ok () { frame := f.holding (pc + 1) { o with stack := ⟨below⟩ }, globals := o.globals } := by
    simp only [Instruction.effect_brIf, Frame.stack_holding, top, Frame.withStack_holding]
  by_cases nonzero : v ≠ 0
  · rw [if_pos nonzero] at effect
    rw [if_pos (decide_eq_true nonzero)]
    exact realizes_branch next notCall effect
  · rw [if_neg nonzero] at effect
    rw [if_neg (mt of_decide_eq_true nonzero)]
    have steps := steps_running m callers next ((Instruction.effect_eq_ok_iff notCall).mp effect)
    exact (follows _ (Function.codeFrom_succ here)).after steps (Nat.le_succ _)

private theorem steps_close {type : BlockType} {target : Nat} {around : OperandStack}
    (here : f.function.body[pc]? = some .close) (o : Operands) :
    Steps 1 (m.settled callers (f.inside type target around) pc o)
      (m.settled callers f (pc + 1) { o with stack := around }) := by
  rw [← Frame.function_inside f target around type] at here
  have steps := steps_running m callers (o := o) here .close
  dsimp only at steps
  rwa [Frame.leave_holding] at steps

/-- The jump at the end of a body leads where a branch to the scope does. -/
private theorem steps_otherwise {type : BlockType} {target : Nat} {around : OperandStack}
    (here : f.function.body[pc]? = some .otherwise) (o : Operands) :
    Steps 1 (m.settled callers (f.inside type target around) pc o)
      (m.settled callers f target { o with stack := around }) := by
  rw [← Frame.function_inside f target around type] at here
  have steps := steps_running m callers (o := o) here .otherwise
  dsimp only at steps
  rwa [Frame.exit_eq_unwind, Frame.unwind_zero_holding] at steps

/-- A scope that has been entered in front of a part of its code runs that part. The operands around it
are those of the entry. -/
private theorem realizes_part {part : Code} {type : BlockType} {tail : List Instruction} {entry : Operands}
    {start behind target fuel' finish : Nat} {next left : Operands → Option Outcome}
    (inside : f.function.codeFrom start = part.flatten ++ tail)
    (follows : m.Follows callers fuel (Code.execWith procedures run) part)
    (enters : Steps 1 (m.settled callers f pc o)
      (m.settled callers (f.inside type target entry.stack) start { entry with stack := .empty }))
    (ends : ∀ o', Steps 1
      (m.settled callers (f.inside type target entry.stack) (start + part.flatten.length) o')
      (m.settled callers f behind { o' with stack := entry.stack }))
    (goesOn : ∀ o', Realizes m callers f behind o' fuel finish (next o'))
    (branches : ∀ o', Realizes m callers f target o' fuel' finish (left o')) (enough : fuel ≤ fuel' + 1) :
    Realizes m callers f pc o fuel finish
      ((Code.execWith procedures run (m.room callers) (f.inner.length + 1) part
        { entry with stack := .empty }).bind (Outcome.afterScope entry.stack next left)) := by
  rw [← Frame.function_inside f target entry.stack type] at inside
  have runs := follows { entry with stack := .empty } inside
  rw [Frame.length_inner_inside] at runs
  exact .scope enters runs ends goesOn branches enough

section Scope

variable {kind : ScopeKind} {type : BlockType} {tail : List Instruction}
  (here : f.function.codeFrom pc = .enter kind type :: (body.flatten ++ .close :: (rest.flatten ++ tail)))
include here

private theorem realizes_behind_scope
    (followsRest : m.Follows callers fuel (Code.execWith procedures run) rest) (o : Operands) :
    Realizes m callers f (f.function.afterEnd pc) o fuel (pc + (Code.scope kind type body rest).flatten.length)
      (Code.execWith procedures run (m.room callers) f.inner.length rest o) := by
  have finish : pc + (Code.scope kind type body rest).flatten.length =
      f.function.afterEnd pc + rest.flatten.length := by
    rw [Function.afterEnd_scope here, Code.flatten, List.length_cons, List.length_append, List.length_cons]
    omega
  have behind : f.function.codeFrom (f.function.afterEnd pc) = rest.flatten ++ tail := by
    rw [Function.afterEnd_scope here]
    exact Function.codeFrom_succ (Function.codeFrom_add (Function.codeFrom_succ here))
  rw [finish]
  exact followsRest o behind

/-- A scope that has been entered runs its body and closes. What a branch to it does depends on its
kind. -/
private theorem realizes_scope {target fuel' : Nat} (entry : Operands) {left : Operands → Option Outcome}
    (followsBody : m.Follows callers fuel (Code.execWith procedures run) body)
    (followsRest : m.Follows callers fuel (Code.execWith procedures run) rest)
    (enters : Steps 1 (m.settled callers f pc o)
      (m.settled callers (f.inside type target entry.stack) (pc + 1) { entry with stack := .empty }))
    (branches : ∀ o', Realizes m callers f target o' fuel'
      (pc + (Code.scope kind type body rest).flatten.length) (left o')) (enough : fuel ≤ fuel' + 1) :
    Realizes m callers f pc o fuel (pc + (Code.scope kind type body rest).flatten.length)
      ((Code.execWith procedures run (m.room callers) (f.inner.length + 1) body
        { entry with stack := .empty }).bind (Outcome.afterScope entry.stack
          (Code.execWith procedures run (m.room callers) f.inner.length rest) left)) := by
  have inside := Function.codeFrom_succ here
  have closing := Function.getElem?_of_codeFrom (Function.codeFrom_add inside)
  have closes (o' : Operands) : Steps 1
      (m.settled callers (f.inside type target entry.stack) (pc + 1 + body.flatten.length) o')
      (m.settled callers f (f.function.afterEnd pc) { o' with stack := entry.stack }) := by
    rw [Function.afterEnd_scope here]
    exact steps_close closing o'
  exact realizes_part inside followsBody enters closes (realizes_behind_scope here followsRest) branches enough

end Scope

theorem block {type : BlockType} (followsBody : m.Follows callers fuel (Code.execWith procedures run) body)
    (followsRest : m.Follows callers fuel (Code.execWith procedures run) rest) :
    m.Follows callers fuel (Code.execWith procedures run) (.scope .block type body rest) := by
  intro f pc tail o here
  rw [Code.flatten, List.cons_append, List.append_assoc] at here
  have enters := steps_running m callers (o := o) (Function.getElem?_of_codeFrom here) .block
  dsimp only at enters
  rw [Frame.function_holding, Frame.enter_holding] at enters
  rw [Code.execWith]
  have behind := realizes_behind_scope here followsRest
  exact realizes_scope here o followsBody followsRest enters behind (Nat.le_succ fuel)

/-- A branch to a loop is back in front of it, with one unit of fuel less. -/
theorem loop {type : BlockType} (functions : m.functions = procedures.map Procedure.function)
    (simulates : Simulates procedures fuel run)
    (followsBody : m.Follows callers (fuel + 1) (Code.execWith procedures run) body)
    (followsRest : m.Follows callers (fuel + 1) (Code.execWith procedures run) rest) :
    m.Follows callers (fuel + 1) (Code.execWith procedures run) (.scope .loop type body rest) := by
  intro f pc tail o here
  have restarts (o' : Operands) := simulates m callers (.scope .loop type body rest) functions o' here
  rw [Code.flatten, List.cons_append, List.append_assoc] at here
  have enters := steps_running m callers (o := o) (Function.getElem?_of_codeFrom here) .loop
  dsimp only at enters
  rw [Frame.enter_holding] at enters
  rw [Code.execWith]
  exact realizes_scope here o followsBody followsRest enters restarts (Nat.le_refl _)

theorem condition {type : BlockType} (followsBody : m.Follows callers fuel (Code.execWith procedures run) body)
    (followsRest : m.Follows callers fuel (Code.execWith procedures run) rest) :
    m.Follows callers fuel (Code.execWith procedures run) (.scope .cond type body rest) := by
  intro f pc tail o here
  rw [Code.flatten, List.cons_append, List.append_assoc] at here
  have next := Function.getElem?_of_codeFrom here
  have notCall : ∀ index, Instruction.enter .cond type ≠ .call index := by rintro index ⟨⟩
  rw [Code.execWith]
  refine realizes_onCondition next notCall (fun w empty => ?_) fun v below top => ?_
  · simp only [Instruction.effect_cond, empty]
  have operands : (f.holding (pc + 1) o).stack.topFirst = v :: below := by rw [Frame.stack_holding, top]
  by_cases nonzero : v ≠ 0
  · rw [if_pos (decide_eq_true nonzero)]
    have enters := steps_running m callers (o := o) next (.holds operands nonzero)
    dsimp only at enters
    rw [Frame.function_holding, Frame.withStack_holding, Frame.enter_holding] at enters
    exact realizes_scope here { o with stack := ⟨below⟩ } followsBody followsRest enters
      (realizes_behind_scope here followsRest) (Nat.le_succ fuel)
  · rw [if_neg (mt of_decide_eq_true nonzero)]
    rw [Decidable.not_not.mp nonzero] at operands
    have skips := steps_running m callers (o := o) next (.fails operands)
    dsimp only at skips
    rw [Frame.withStack_holding, Frame.enterElse_holding, Function.matchingElse_scope here] at skips
    exact (realizes_behind_scope here followsRest _).after skips (Nat.le_succ fuel)

section Choice

variable {type : BlockType} {tail : List Instruction}
  (here : f.function.codeFrom pc = .enter .cond type ::
    (body.flatten ++ .otherwise :: (alternative.flatten ++ .close :: (rest.flatten ++ tail))))
include here

private theorem realizes_behind_choice
    (followsRest : m.Follows callers fuel (Code.execWith procedures run) rest) (o : Operands) :
    Realizes m callers f (f.function.afterEnd pc) o fuel
      (pc + (Code.choice type body alternative rest).flatten.length)
      (Code.execWith procedures run (m.room callers) f.inner.length rest o) := by
  have finish : pc + (Code.choice type body alternative rest).flatten.length =
      f.function.afterEnd pc + rest.flatten.length := by
    rw [Function.afterEnd_choice here, Code.flatten]
    simp only [List.length_cons, List.length_append]
    omega
  have behind : f.function.codeFrom (f.function.afterEnd pc) = rest.flatten ++ tail := by
    rw [Function.afterEnd_choice here]
    have turning := Function.codeFrom_add (Function.codeFrom_succ here)
    exact Function.codeFrom_succ (Function.codeFrom_add (Function.codeFrom_succ turning))
  rw [finish]
  exact followsRest o behind

/-- The body of a choice ends with a jump over the alternative. -/
private theorem realizes_body (entry : Operands)
    (followsBody : m.Follows callers fuel (Code.execWith procedures run) body)
    (followsRest : m.Follows callers fuel (Code.execWith procedures run) rest)
    (enters : Steps 1 (m.settled callers f pc o)
      (m.settled callers (f.inside type (f.function.afterEnd pc) entry.stack) (pc + 1)
        { entry with stack := .empty })) :
    Realizes m callers f pc o fuel (pc + (Code.choice type body alternative rest).flatten.length)
      ((Code.execWith procedures run (m.room callers) (f.inner.length + 1) body
        { entry with stack := .empty }).bind (Outcome.afterScope entry.stack
          (Code.execWith procedures run (m.room callers) f.inner.length rest)
          (Code.execWith procedures run (m.room callers) f.inner.length rest))) := by
  have inside := Function.codeFrom_succ here
  have turning := Function.getElem?_of_codeFrom (Function.codeFrom_add inside)
  have behind := realizes_behind_choice here followsRest
  exact realizes_part inside followsBody enters (steps_otherwise turning) behind behind (Nat.le_succ fuel)

private theorem realizes_alternative (entry : Operands)
    (followsAlternative : m.Follows callers fuel (Code.execWith procedures run) alternative)
    (followsRest : m.Follows callers fuel (Code.execWith procedures run) rest)
    (enters : Steps 1 (m.settled callers f pc o)
      (m.settled callers (f.inside type (f.function.afterEnd pc) entry.stack)
        (pc + 1 + body.flatten.length + 1) { entry with stack := .empty })) :
    Realizes m callers f pc o fuel (pc + (Code.choice type body alternative rest).flatten.length)
      ((Code.execWith procedures run (m.room callers) (f.inner.length + 1) alternative
        { entry with stack := .empty }).bind (Outcome.afterScope entry.stack
          (Code.execWith procedures run (m.room callers) f.inner.length rest)
          (Code.execWith procedures run (m.room callers) f.inner.length rest))) := by
  have inside := Function.codeFrom_succ (Function.codeFrom_add (Function.codeFrom_succ here))
  have closing := Function.getElem?_of_codeFrom (Function.codeFrom_add inside)
  have closes (o' : Operands) : Steps 1
      (m.settled callers (f.inside type (f.function.afterEnd pc) entry.stack)
        (pc + 1 + body.flatten.length + 1 + alternative.flatten.length) o')
      (m.settled callers f (f.function.afterEnd pc) { o' with stack := entry.stack }) := by
    rw [Function.afterEnd_choice here]
    exact steps_close closing o'
  have behind := realizes_behind_choice here followsRest
  exact realizes_part inside followsAlternative enters closes behind behind (Nat.le_succ fuel)

end Choice

theorem choice {type : BlockType} (followsBody : m.Follows callers fuel (Code.execWith procedures run) body)
    (followsAlternative : m.Follows callers fuel (Code.execWith procedures run) alternative)
    (followsRest : m.Follows callers fuel (Code.execWith procedures run) rest) :
    m.Follows callers fuel (Code.execWith procedures run) (.choice type body alternative rest) := by
  intro f pc tail o here
  rw [Code.flatten, List.cons_append, List.append_assoc, List.cons_append, List.append_assoc] at here
  have next := Function.getElem?_of_codeFrom here
  have notCall : ∀ index, Instruction.enter .cond type ≠ .call index := by rintro index ⟨⟩
  rw [Code.execWith]
  refine realizes_onCondition next notCall (fun w empty => ?_) fun v below top => ?_
  · simp only [Instruction.effect_cond, empty]
  have operands : (f.holding (pc + 1) o).stack.topFirst = v :: below := by rw [Frame.stack_holding, top]
  by_cases nonzero : v ≠ 0
  · rw [if_pos (decide_eq_true nonzero)]
    have enters := steps_running m callers (o := o) next (.holds operands nonzero)
    dsimp only at enters
    rw [Frame.function_holding, Frame.withStack_holding, Frame.enter_holding] at enters
    exact realizes_body here { o with stack := ⟨below⟩ } followsBody followsRest enters
  · rw [if_neg (mt of_decide_eq_true nonzero)]
    rw [Decidable.not_not.mp nonzero] at operands
    have enters := steps_running m callers (o := o) next (.fails operands)
    dsimp only at enters
    rw [Frame.withStack_holding, Frame.enterElse_holding, Function.matchingElse_choice here] at enters
    exact realizes_alternative here { o with stack := ⟨below⟩ } followsAlternative followsRest enters

/-- The step of a call, from the machine that has been moved past it. -/
private theorem step_running_call {index : UInt32} (here : f.function.body[pc]? = some (.call index)) :
    step (m.settled callers f pc o) =
      match Machine.call index (m.running callers f (pc + 1) o) with
      | .ok _ m' => .ok () m'.retireFinished
      | .error e m' => .error e m' := by
  have next : (f.holding pc o).instruction? = some (.call index) := by rw [Frame.instruction?_holding, here]
  rw [settled_eq_running here, step_of_call rfl next, Frame.pc_holding, Frame.goto_holding]
  rfl

private theorem traps_call {index : UInt32} {e : Error} {fuel finish : Nat}
    (here : f.function.body[pc]? = some (.call index))
    (failed : Machine.call index (m.running callers f (pc + 1) o) = .error e (m.running callers f (pc + 1) o)) :
    Realizes m callers f pc o fuel finish (some (.traps e o.globals)) := by
  refine ⟨0, m.running callers f (pc + 1) o, ⟨_, .refl _, ?_⟩, rfl⟩
  rw [step_running_call here, failed]

/-- A call of a function that is known, with its arguments and enough room, opens a frame at its start. -/
private theorem call_running {index : UInt32} {p : Procedure} {args : List Value} {below : OperandStack}
    (functions : m.functions = procedures.map Procedure.function)
    (known : procedures[index.toNat]? = some p) (spare : m.room callers ≠ 0)
    (popped : o.stack.popN p.params.length = .ok (args, below)) :
    Machine.call index (m.running callers f (pc + 1) o) = .ok ()
      (m.running (f.holding (pc + 1) { o with stack := below } :: callers) (.entering p.function args) 0
        (p.entering args o.globals)) := by
  have taken : (f.holding (pc + 1) o).popN p.params.length =
      .ok (args, f.holding (pc + 1) { o with stack := below }) := by
    rw [Frame.popN, Frame.stack_holding, popped]
    exact congrArg (fun caller => Except.ok (args, caller)) (Frame.withStack_holding ..)
  obtain ⟨count, rest, operands, same⟩ := Frame.popN_eq_ok_iff.mp taken
  have function : m.functions[index.toNat]? = some p.function := by
    rw [functions, List.getElem?_map, known]
    rfl
  have room : callers.length + 1 < m.maxDepth := Nat.lt_of_sub_ne_zero spare
  rw [same]
  exact call_eq_ok_iff.mpr (.nested rfl function room count operands)

/-- A call runs the callee above the caller and goes on with all that it leaves. -/
private theorem realizes_call {index : UInt32} {p : Procedure} {args : List Value} {below : OperandStack}
    {finish : Nat} {next : Operands → Option Outcome}
    (functions : m.functions = procedures.map Procedure.function) (simulates : Simulates procedures fuel run)
    (here : f.function.body[pc]? = some (.call index)) (known : procedures[index.toNat]? = some p)
    (spare : m.room callers ≠ 0) (popped : o.stack.popN p.params.length = .ok (args, below))
    (goesOn : ∀ o', Realizes m callers f (pc + 1) o' (fuel + 1) finish (next o')) :
    Realizes m callers f pc o (fuel + 1) finish
      ((run (m.room callers - 1) 0 p.body (p.entering args o.globals)).bind
        (Outcome.afterCall { o with stack := below } next)) := by
  have busy : (m.settled callers f pc o).frames ≠ [] := by
    rw [settled_eq_running here]
    exact List.cons_ne_nil _ _
  have enters : Steps 1 (m.settled callers f pc o)
      (m.settled (f.holding (pc + 1) { o with stack := below } :: callers) (.entering p.function args) 0
        (p.entering args o.globals)) := by
    apply Steps.single busy
    rw [step_running_call here, call_running functions known spare popped]
    rfl
  have completes := simulates.procedure functions (f.holding (pc + 1) { o with stack := below } :: callers) p
    args o.globals
  rw [room_cons] at completes
  exact .call enters completes goesOn

theorem call {index : UInt32} (functions : m.functions = procedures.map Procedure.function)
    (simulates : Simulates procedures fuel run)
    (follows : m.Follows callers (fuel + 1) (Code.execWith procedures run) rest) :
    m.Follows callers (fuel + 1) (Code.execWith procedures run) (.call index rest) := by
  intro f pc tail o here
  have next := Function.getElem?_of_codeFrom here
  have finish : pc + (Code.call index rest).flatten.length = pc + 1 + rest.flatten.length := by
    rw [Code.flatten, List.length_cons]
    omega
  have function : (m.running callers f (pc + 1) o).functions[index.toNat]? =
      procedures[index.toNat]?.map Procedure.function := by
    rw [← List.getElem?_map, ← functions]
    rfl
  have calls : Machine.call index (m.running callers f (pc + 1) o) = _ := call_of_frames rfl
  rw [Machine.function, function] at calls
  rw [finish, Code.execWith]
  cases known : procedures[index.toNat]? with
  | none =>
    rw [known] at calls
    exact traps_call next calls
  | some p =>
    rw [known] at calls
    dsimp only [Option.map_some] at calls ⊢
    have exhausted : (m.running callers f (pc + 1) o).maxDepth ≤ (m.running callers f (pc + 1) o).frames.length ↔
        m.room callers = 0 := Nat.sub_eq_zero_iff_le.symm
    simp only [exhausted] at calls
    by_cases full : m.room callers = 0
    · rw [if_pos full] at calls ⊢
      exact traps_call next calls
    · rw [if_neg full] at calls ⊢
      cases popped : o.stack.popN p.params.length with
      | error e =>
        have missing : (f.holding (pc + 1) o).popN p.function.params.length = .error e := by
          rw [Frame.popN, Frame.stack_holding]
          exact congrArg _ popped
        rw [missing] at calls
        exact traps_call next calls
      | ok taken =>
        exact realizes_call functions simulates next known full popped fun o' =>
          follows o' (Function.codeFrom_succ here)

end Follows

/-- What is followed of restarts and callees with some fuel is followed of all code with one more. -/
theorem simulates_execWith {procedures : List Procedure} {fuel : Nat} {run : Runner}
    (simulates : Simulates procedures fuel run) :
    Simulates procedures (fuel + 1) (Code.execWith procedures run) := by
  intro m callers c functions
  induction c with
  | nil => exact Follows.nil
  | plain i isPlain rest ih => exact Follows.plain isPlain ih
  | br label rest => exact Follows.br
  | brIf label rest ih => exact Follows.brIf ih
  | call index rest ih => exact Follows.call functions simulates ih
  | scope kind type body rest ihBody ihRest =>
    cases kind with
    | block => exact Follows.block ihBody ihRest
    | loop => exact Follows.loop functions simulates ihBody ihRest
    | cond => exact Follows.condition ihBody ihRest
  | choice type body alternative rest ihBody ihAlternative ihRest =>
    exact Follows.choice ihBody ihAlternative ihRest

/-- Machines follow the meaning of structured code with any fuel. -/
theorem simulates_exec (procedures : List Procedure) (fuel : Nat) :
    Simulates procedures fuel (Code.exec procedures fuel) := by
  induction fuel with
  | zero =>
    intro m callers c functions f pc tail o here
    exact ⟨0, _, Nat.le_refl 0, .refl _⟩
  | succ fuel ih => exact simulates_execWith ih

end ScopeMachine.Machine
