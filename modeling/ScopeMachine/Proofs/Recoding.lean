import ScopeMachine.Instruction.Opcode
import ScopeMachine.Proofs.Form
import ScopeMachine.Proofs.Related
import ScopeMachine.Proofs.Reply
import ScopeMachine.Proofs.Untyped

/-! # Instructions built again from their opcodes

An opcode and an immediate hold all of an instruction but the type of the scope that it opens
(`Instruction.recode_eq`). A machine whose functions are built again from them, with any result types, is
therefore the same machine as before without its types, and as types are inert nobody can tell the two apart: all
operations have the same answers on both, one after the other, and leave machines that again are the same
without their types.
-/

namespace ScopeMachine

namespace Instruction

/-- The instruction that is built again from the opcode and the immediate of another one. -/
def recode (i : Instruction) : Except Malformed Instruction := ofOpcode i.opcode i.immediate?

/-- Building an instruction again always succeeds and loses nothing but the type of a scope. -/
theorem recode_eq (i : Instruction) : i.recode = .ok i.untyped := by
  rw [recode, ofOpcode, i.coded?_opcode]
  cases i <;> rfl

theorem untyped_eq_self_or (i : Instruction) :
    i.untyped = i ∨ ∃ kind type, i = enter kind type ∧ i.untyped = enter kind .empty := by
  cases i with
  | enter kind type => exact .inr ⟨kind, type, rfl, rfl⟩
  | _ => exact .inl rfl

@[simp] theorem untyped_untyped (i : Instruction) : i.untyped.untyped = i.untyped := by
  cases i <;> rfl

end Instruction

/-- The second function has the instructions of the first, built again, and may have other result types. -/
structure Function.Recoded (f g : Function) : Prop where
  params : g.params = f.params
  locals : g.locals = f.locals
  body : List.Forall₂ (fun i j => i.recode = .ok j) f.body.toList g.body.toList

namespace Function

/-- Every function can be built again, with any result types. -/
theorem recoded_untyped (f : Function) (results : List ValueType) :
    f.Recoded { params := f.params, results, locals := f.locals, body := f.body.map Instruction.untyped } where
  params := rfl
  locals := rfl
  body := by
    rw [Array.toList_map, List.forall₂_map_right_iff]
    exact List.forall₂_same.mpr fun i _ => i.recode_eq

theorem Recoded.untyped_eq {f g : Function} (recoded : f.Recoded g) : g.untyped = f.untyped := by
  obtain ⟨params, locals, body⟩ := recoded
  have instructions : g.body.map Instruction.untyped = f.body.map Instruction.untyped := by
    apply Array.toList_inj.mp
    rw [Array.toList_map, Array.toList_map]
    apply map_eq_of_forall₂ body
    intro i j built
    rw [i.recode_eq] at built
    cases built
    exact i.untyped_untyped
  simp only [untyped, params, locals, instructions]

end Function

/-- Two machines that differ only in that the functions of the second are those of the first, built again; that
includes the functions of the calls under way. -/
structure Machine.Recoded (m m' : Machine) : Prop where
  functions : List.Forall₂ Function.Recoded m.functions m'.functions
  frames : List.Forall₂ (fun f g => f.function.Recoded g.function ∧ g = { f with function := g.function })
    m.frames m'.frames
  globals : m'.globals = m.globals
  exports : m'.exports = m.exports
  results : m'.results = m.results
  maxDepth : m'.maxDepth = m.maxDepth

theorem Machine.Recoded.untyped_eq {m m' : Machine} (recoded : m.Recoded m') : m'.untyped = m.untyped := by
  have functions := map_eq_of_forall₂ recoded.functions fun f g built => built.untyped_eq
  have frames : m'.frames.map Frame.untyped = m.frames.map Frame.untyped := by
    apply map_eq_of_forall₂ recoded.frames
    rintro f g ⟨built, same⟩
    rw [same]
    unfold Frame.untyped Frame.recast
    rw [built.untyped_eq]
  unfold Machine.untyped
  rw [functions, frames, recoded.globals, recoded.exports, recoded.results, recoded.maxDepth]

/-- The same operation without the types in what it adds. -/
def Operation.untyped : Operation → Operation
  | addFunction f => addFunction f.untyped
  | op => op

open Machine

theorem Reply.ofResult_untyped {α : Type} (reply : α → Reply) (result : EStateM.Result Error Machine α) :
    ofResult reply (onState untyped result) = Prod.map id untyped (ofResult reply result) := by
  cases result <;> rfl

/-- An operation has the same answer with and without types. -/
theorem Operation.reply?_untyped (op : Operation) (fuel : Nat) (m : Machine) :
    op.untyped.reply? fuel m.untyped = (op.reply? fuel m).map (Prod.map id Machine.untyped) := by
  cases op with
  | addFunction f =>
    simp only [untyped, reply?, Machine.addFunction, Machine.untyped, Reply.ofResult, List.length_map,
      List.map_append, List.map_cons, List.map_nil, Option.map_some, Prod.map, id]
  | addGlobal v => rfl
  | addExport name index =>
    have size : m.untyped.functions.length = m.functions.length := List.length_map ..
    have known : m.untyped.functionIndex? name = m.functionIndex? name := rfl
    simp only [untyped, reply?, Machine.addExport, size, known]
    split
    · rfl
    · split <;> rfl
  | withMaxDepth depth => rfl
  | start index args => simp only [untyped, reply?, start_untyped, Reply.ofResult_untyped, Option.map_some]
  | call index => simp only [untyped, reply?, call_untyped, Reply.ofResult_untyped, Option.map_some]
  | invoke index args =>
    simp only [untyped, reply?, invoke?_untyped, Option.map_map, Function.comp_def, Reply.ofResult_untyped]
  | step => simp only [untyped, reply?, step_untyped, Reply.ofResult_untyped, Option.map_some]
  | run => simp only [untyped, reply?, run?_untyped, Option.map_map, Function.comp_def, Reply.ofResult_untyped]
  | runSteps limit => simp only [untyped, reply?, runSteps_untyped, Reply.ofResult_untyped, Option.map_some]
  | takeResults => rfl
  | reset => rfl

theorem replies?_untyped (ops : List Operation) (fuel : Nat) (m : Machine) :
    replies? fuel (ops.map Operation.untyped) m.untyped =
      (replies? fuel ops m).map (·.map (Prod.map id Machine.untyped)) := by
  induction ops generalizing m with
  | nil => rfl
  | cons op ops ih =>
    rw [List.map_cons, replies?, replies?, op.reply?_untyped]
    cases op.reply? fuel m with
    | none => rfl
    | some first =>
      simp only [Option.map_some, Option.bind_some, Prod.map, ih, Option.map_map, Function.comp_def, List.map_cons]

namespace Machine

/-- Building an instruction again from its opcode and its immediate always succeeds, and yields the instruction
itself or an opener without the type of its scope. If this is done with all functions of a machine and their
result types are changed at will, every sequence of operations has the same answers as before, and after each
operation the machine is the same as it would have been, except for the types in its functions and scopes. -/
theorem replies?_of_recoded {m m' : Machine} (recoded : m.Recoded m') (ops : List Operation) (fuel : Nat) :
    (∀ i : Instruction, i.recode = .ok i.untyped ∧
      (i.untyped = i ∨ ∃ kind type, i = .enter kind type ∧ i.untyped = .enter kind .empty)) ∧
    m'.untyped = m.untyped ∧
    (replies? fuel ops m').map (·.map (Prod.map id untyped)) =
      (replies? fuel ops m).map (·.map (Prod.map id untyped)) ∧
    ((∀ op ∈ ops, op.waits = false) → (replies? fuel ops m).isSome ∧ (replies? fuel ops m').isSome) := by
  have same := recoded.untyped_eq
  refine ⟨fun i => ⟨i.recode_eq, i.untyped_eq_self_or⟩, same, ?_, ?_⟩
  · rw [← replies?_untyped, ← replies?_untyped, same]
  · exact fun atOnce => ⟨isSome_replies? atOnce fuel m, isSome_replies? atOnce fuel m'⟩

/-- A machine whose function divides by its argument inside typed scopes, and the same machine without types. -/
def annotated : Machine :=
  { functions := [{ params := [.i32], results := [.i32], body := #[.enter .block { results := [.i32] }, .localGet 0,
      .enter .cond { params := [.i32] }, .const 6, .localGet 0, .binary .div, .globalSet 0, .close, .close,
      .globalGet 0] }]
    globals := [5] }

def unannotated : Machine :=
  { functions := [{ params := [.i32], body := #[.enter .block .empty, .localGet 0, .enter .cond .empty, .const 6,
      .localGet 0, .binary .div, .globalSet 0, .close, .close, .globalGet 0] }]
    globals := [5] }

theorem replies?_of_recoded_annotated : annotated.Recoded unannotated ∧
    (replies? 0 [.start 0 [3], .runSteps 4, .start 0 [0], .call 0, .step, .reset, .start 0 [0], .runSteps 9,
        .takeResults] unannotated).map (·.map Prod.fst) =
      some [.done, .finished false, .failed .busy, .done, .done, .done, .done, .finished true, .values [5]] := by
  have recoded : annotated.Recoded unannotated := by
    refine ⟨.cons ⟨rfl, rfl, ?_⟩ .nil, .nil, rfl, rfl, rfl, rfl⟩
    repeat' constructor
  have own : (replies? 0 [.start 0 [3], .runSteps 4, .start 0 [0], .call 0, .step, .reset, .start 0 [0], .runSteps 9,
      .takeResults] annotated).map (·.map Prod.fst) =
        some [.done, .finished false, .failed .busy, .done, .done, .done, .done, .finished true, .values [5]] := by
    decide +kernel
  obtain ⟨-, -, same, -⟩ := replies?_of_recoded recoded [.start 0 [3], .runSteps 4, .start 0 [0], .call 0, .step,
    .reset, .start 0 [0], .runSteps 9, .takeResults] 0
  have answers := congrArg (Option.map (List.map Prod.fst)) same
  simp only [Option.map_map, Function.comp_def, List.map_map, Prod.map, id] at answers
  exact ⟨recoded, answers.trans own⟩

end Machine

end ScopeMachine
