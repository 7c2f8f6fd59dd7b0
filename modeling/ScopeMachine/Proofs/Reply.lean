import ScopeMachine.Proofs.Operation

/-! # What operations answer

`Operation.reply?` is what somebody gets back who performs an operation, together with the machine that it leaves
behind, and `replies?` lists that for operations that are performed one after the other.
-/

namespace ScopeMachine

/-- What an operation answers. -/
inductive Reply where
  | done
  | index (index : UInt32)
  | finished (finished : Bool)
  | values (values : List Value)
  | failed (e : Error)
  deriving DecidableEq, Repr

/-- What an action answers if a value of it is put into words, with the machine that it leaves. -/
def Reply.ofResult {α : Type} (reply : α → Reply) : EStateM.Result Error Machine α → Reply × Machine
  | .ok a m => (reply a, m)
  | .error e m => (.failed e, m)

namespace Operation

/-- What an operation answers, with the machine that it leaves. An operation that waits for the end of a run has
no answer when the fuel is used up before. -/
def reply? (fuel : Nat) : Operation → Machine → Option (Reply × Machine)
  | addFunction f, m => some (Reply.ofResult .index (m.addFunction f))
  | addGlobal v, m => some (Reply.ofResult .index (m.addGlobal v))
  | addExport name index, m => some (Reply.ofResult (fun _ => .done) (m.addExport name index))
  | withMaxDepth depth, m => some (.done, m.withMaxDepth depth)
  | start index args, m => some (Reply.ofResult (fun _ => .done) (m.start index args))
  | call index, m => some (Reply.ofResult (fun _ => .done) (m.call index))
  | invoke index args, m => (m.invoke? fuel index args).map (Reply.ofResult .values)
  | step, m => some (Reply.ofResult (fun _ => .done) m.step)
  | run, m => (m.run? fuel).map (Reply.ofResult fun _ => .done)
  | runSteps limit, m => some (Reply.ofResult .finished (m.runSteps limit))
  | takeResults, m => some (Reply.ofResult .values m.takeResults)
  | reset, m => some (.done, m.reset)

/-- Whether an operation waits for the end of a run, however long that takes. -/
def waits : Operation → Bool
  | invoke _ _ | run => true
  | _ => false

/-- Only who waits for the end of a run may get no answer. -/
theorem isSome_reply? {op : Operation} (atOnce : op.waits = false) (fuel : Nat) (m : Machine) :
    (op.reply? fuel m).isSome = true := by
  cases op with
  | invoke | run => cases atOnce
  | _ => rfl

theorem snd_ofResult {α : Type} (reply : α → Reply) (result : EStateM.Result Error Machine α) :
    (Reply.ofResult reply result).2 = left result := by
  cases result <;> rfl

/-- Whoever gets an answer has performed the operation. -/
theorem map_snd_reply? (op : Operation) (fuel : Nat) (m : Machine) :
    (op.reply? fuel m).map Prod.snd = (op.perform? fuel m).map Prod.snd := by
  cases op with
  | withMaxDepth | reset => rfl
  | run => simp only [reply?, perform?, Option.map_map, Function.comp_def, snd_ofResult]
  | invoke index args =>
    simp only [reply?, perform?, Option.map_map, Function.comp_def, snd_ofResult]
    cases started : m.start index args with
    | ok _ m' => simp only [failed, Bool.false_eq_true, ↓reduceIte, Option.map_map, Function.comp_def]
    | error e m' => simp only [failed, ↓reduceIte, Option.map_some, Machine.invoke?, started]; rfl
  | _ => exact congrArg some (snd_ofResult _ _)

end Operation

/-- What operations answer that are performed one after the other, each with the machine that it leaves. -/
def replies? (fuel : Nat) : List Operation → Machine → Option (List (Reply × Machine))
  | [], _ => some []
  | op :: ops, m => (op.reply? fuel m).bind fun first => (replies? fuel ops first.2).map (first :: ·)

theorem isSome_replies? {ops : List Operation} (atOnce : ∀ op ∈ ops, op.waits = false) (fuel : Nat) (m : Machine) :
    (replies? fuel ops m).isSome = true := by
  induction ops generalizing m with
  | nil => rfl
  | cons op ops ih =>
    obtain ⟨head, tail⟩ := List.forall_mem_cons.mp atOnce
    obtain ⟨first, answered⟩ := Option.isSome_iff_exists.mp (op.isSome_reply? head fuel m)
    obtain ⟨rest, answers⟩ := Option.isSome_iff_exists.mp (ih tail first.2)
    rw [replies?, answered, Option.bind_some, answers]
    rfl

end ScopeMachine
