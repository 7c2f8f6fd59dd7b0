import ScopeMachine.Proofs.Layout.Insertion
import ScopeMachine.Proofs.Layout.Outcome

/-! # Edits that do not matter

Three edits of a body leave everything as it is that can be seen of invocations: a `nop` may stand
anywhere, a value may be taken and put back instead of being left on the stack, and a condition may
have an alternative with nothing in it instead of none. Each of them is an insertion, after which the
body is a layout of the same code (`Function.Edit.rearranged`), so invocations have the same answers
on the machine with that body (`Machine.invokeAll?_withBody`). Nothing is assumed of the body.
-/

namespace ScopeMachine

namespace Function

/-- The function with another body. -/
def withBody (body : Array Instruction) (f : Function) : Function :=
  { params := f.params, results := f.results, locals := f.locals, body }

/-- The bodies that come from a function's own body by an edit that does not matter. -/
inductive Edit (f : Function) : Array Instruction → Prop
  /-- Anywhere in the body a `nop` is inserted. -/
  | nop {place : Nat} (within : place ≤ f.size) : f.Edit (f.body.toList.insertIdx place .nop).toArray
  /-- An instruction that writes a local and leaves the value is replaced by one that takes the value and
  one that puts it back. -/
  | tee {place : Nat} {index : UInt32} (here : f.body[place]? = some (.localTee index)) :
      f.Edit ((f.body.toList.set place (.localGet index)).insertIdx place (.localSet index)).toArray
  /-- Directly before the end of a closed condition that has no alternative, one is inserted. -/
  | otherwise {opener : Nat} {type : BlockType} (opens : f.body[opener]? = some (.enter .cond type))
      (lacks : f.matchingElse opener = none) (closed : f.matchingEnd opener < f.size) :
      f.Edit (f.body.toList.insertIdx (f.matchingEnd opener) .otherwise).toArray

variable {f : Function} {place width : Nat} {added : Instruction}

/-- To insert into the instructions of a body, the next of which may have been replaced, is an insertion. -/
theorem insertion_withBody {body : List Instruction} (length : body.length = f.size) (narrow : width ≤ 1)
    (within : place + width ≤ f.size)
    (same : ∀ q, q < place ∨ place + width ≤ q → body[q]? = f.body[q]?)
    (replaced : ∀ q, place ≤ q → q < place + width →
      ∃ i j, f.body[q]? = some i ∧ body[q]? = some j ∧ i.keepsScopes = true ∧ j.keepsScopes = true) :
    f.Insertion (f.withBody (body.insertIdx place added).toArray) place width added := by
  have inside : place ≤ body.length := by omega
  have before (q : Nat) (earlier : q < place) : (body.insertIdx place added)[q]? = body[q]? :=
    List.getElem?_insertIdx_of_lt earlier
  have after (q : Nat) (later : place ≤ q) : (body.insertIdx place added)[q + 1]? = body[q]? :=
    List.getElem?_insertIdx_of_gt (Nat.lt_succ_of_le later)
  refine ⟨rfl, rfl, ?_, narrow, within, ?_, ?_, ?_, ?_⟩
  · exact (List.length_insertIdx_of_le_length inside added).trans (congrArg (· + 1) length)
  · intro q earlier
    rw [← same q (.inl earlier), ← before q earlier]
    exact List.getElem?_toArray
  · rw [withBody, List.getElem?_toArray, List.getElem?_insertIdx_self, if_pos inside]
  · intro q later within
    obtain ⟨i, j, here, there, keeps⟩ := replaced q later within
    refine ⟨i, j, here, ?_, keeps⟩
    rw [withBody, List.getElem?_toArray, after q later, there]
  · intro q later
    rw [withBody, List.getElem?_toArray, after q (by omega), same q (.inr later)]

theorem insertion_insertIdx (within : place ≤ f.size) (added : Instruction) :
    f.Insertion (f.withBody (f.body.toList.insertIdx place added).toArray) place 0 added :=
  insertion_withBody Array.length_toList (Nat.zero_le 1) within (fun _ _ => Array.getElem?_toList) (by omega)

/-- A body with one `nop` more does the same after a pause. -/
theorem rearranged_nop (within : place ≤ f.size) :
    f.Rearranged (f.withBody (f.body.toList.insertIdx place .nop).toArray) := by
  have insertion := insertion_insertIdx within .nop
  have next : f.Placed place 0 place (place + 1) := ⟨within, .inr ⟨rfl, Nat.le_refl _⟩⟩
  exact ⟨_, insertion.layout (.of_keepsScopes insertion rfl)
    (.pause insertion.added next (.now (insertion.matches_after within (Nat.le_refl _))))⟩

/-- Between the two instructions nothing else is reached, so only the first of them corresponds to the one
that they replace. -/
theorem rearranged_tee {index : UInt32} (here : f.body[place]? = some (.localTee index)) :
    f.Rearranged
      (f.withBody ((f.body.toList.set place (.localGet index)).insertIdx place (.localSet index)).toArray) := by
  have bound : place < f.size := (Array.getElem?_eq_some_iff.mp here).1
  have get : (f.body.toList.set place (.localGet index))[place]? = some (.localGet index) :=
    List.getElem?_set_self (Array.length_toList ▸ bound)
  have insertion : f.Insertion
      (f.withBody ((f.body.toList.set place (.localGet index)).insertIdx place (.localSet index)).toArray) place 1
      (.localSet index) := by
    apply insertion_withBody
    · rw [List.length_set]
      exact Array.length_toList
    · exact Nat.le_refl 1
    · exact bound
    · intro q elsewhere
      rw [List.getElem?_set_ne (by omega), Array.getElem?_toList]
    · intro q later within
      obtain rfl : q = place := by omega
      exact ⟨_, _, here, get, rfl, rfl⟩
  have next : f.Placed place 1 (place + 1) (place + 2) := ⟨bound, .inr ⟨rfl, Nat.le_refl _⟩⟩
  refine ⟨_, insertion.layout (.of_keepsScopes insertion rfl) (.now (.tee here insertion.added ?_ next))⟩
  rw [withBody, List.getElem?_toArray, List.getElem?_insertIdx_of_gt (Nat.lt_succ_self place)]
  exact get

/-- An added alternative with nothing in it is closed at once, and running into it leaves the scope of the
condition, which is the innermost one there. -/
theorem rearranged_otherwise {opener : Nat} {type : BlockType}
    (opens : f.body[opener]? = some (.enter .cond type)) (lacks : f.matchingElse opener = none)
    (closed : f.matchingEnd opener < f.size) :
    f.Rearranged (f.withBody (f.body.toList.insertIdx (f.matchingEnd opener) .otherwise).toArray) := by
  have isOpener : f.opens opener = true := opens_iff.mpr ⟨_, _, opens⟩
  have bound : opener < f.size := (Array.getElem?_eq_some_iff.mp opens).1
  have insertion := insertion_insertIdx (Nat.le_of_lt closed) .otherwise
  have close : f.body[f.matchingEnd opener]? = some .close := by
    rw [matchingEnd_enter opens] at closed ⊢
    exact close_of_endPc_ahead bound closed
  have innermost : (f.enclosing (f.matchingEnd opener)).head?.map f.scopeAt =
      some (type, f.matchingEnd opener + 1) := by
    rw [enclosing_before_matchingEnd isOpener closed, Option.map_some, scopeAt_of_ne_loop opens nofun,
      afterEnd, Nat.min_eq_left closed]
  have resolved : f.Resolved _ (f.matchingEnd opener) true := {
    ahead := insertion.atPlace_of_close close
    closes := fun _ => (insertion.after _ (Nat.le_refl _)).trans close
    lacks := by
      intro _ other type opensOther same
      rw [matchingEnd_injective isOpener (opens_iff.mpr ⟨_, _, opensOther⟩) closed same]
      exact lacks }
  exact ⟨_, insertion.layout resolved (.now (.otherwise close insertion.added innermost))⟩

/-- After each of the edits the body is a layout of the same code. -/
theorem Edit.rearranged {body : Array Instruction} (edit : f.Edit body) : f.Rearranged (f.withBody body) := by
  cases edit with
  | nop within => exact rearranged_nop within
  | tee here => exact rearranged_tee here
  | otherwise opens lacks closed => exact rearranged_otherwise opens lacks closed

end Function

namespace Machine

/-- The machine in which one function has another body. -/
def withBody (k : Nat) (body : Array Instruction) (m : Machine) : Machine :=
  { m with functions := m.functions.modify k (·.withBody body) }

private theorem rearranged_modify {functions : List Function} {k : Nat} {f : Function}
    {body : Array Instruction} (known : functions[k]? = some f) (edit : f.Edit body) :
    List.Forall₂ Function.Rearranged functions (functions.modify k (·.withBody body)) := by
  have same (functions : List Function) : List.Forall₂ Function.Rearranged functions functions :=
    List.forall₂_same.mpr fun f _ => ⟨_, Function.Layout.identity f⟩
  induction functions generalizing k with
  | nil => cases known
  | cons head rest ih =>
    cases k with
    | zero =>
      obtain rfl : head = f := Option.some.inj known
      exact .cons edit.rearranged (same rest)
    | succ k => exact .cons ⟨_, Function.Layout.identity head⟩ (ih known)

/-- On an idle machine, none of the edits of a function's body changes what is seen of any invocations
that are made from then on, one after the other: they return the same values or trap for the same cause,
they leave the same globals, and if one of them goes on forever, it does so with the other body. -/
theorem invokeAll?_withBody {m : Machine} {k : Nat} {f : Function} {body : Array Instruction}
    (idle : m.frames = []) (known : m.functions[k]? = some f) (edit : f.Edit body)
    (calls : List (UInt32 × List Value)) :
    (∀ answers, (∃ fuel, invokeAll? fuel calls m = some answers) ↔
      ∃ fuel, invokeAll? fuel calls (m.withBody k body) = some answers) ∧
    ((∀ fuel, invokeAll? fuel calls m = none) ↔
      ∀ fuel, invokeAll? fuel calls (m.withBody k body) = none) := by
  have shadows : m.Shadows (m.withBody k body) :=
    ⟨rearranged_modify known edit, by rw [withBody, idle]; exact .nil, rfl, rfl, rfl⟩
  have same := shadows.invokeAll?_iff idle calls
  refine ⟨same, ?_⟩
  have silent (m : Machine) : (∀ fuel, invokeAll? fuel calls m = none) ↔
      ∀ answers, ¬ ∃ fuel, invokeAll? fuel calls m = some answers := by
    simp only [Option.eq_none_iff_forall_ne_some, not_exists]
    exact forall_comm
  rw [silent, silent]
  exact forall_congr' fun answers => not_congr (same answers)

/-- The product of the numbers from one to the argument, by a call of itself from inside a condition that
has no alternative. -/
def factorialFunction : Function :=
  { params := [.i32]
    results := [.i32]
    locals := [.i32]
    body := #[.const 1, .localSet 1, .localGet 0, .enter .cond .empty, .localGet 0, .localGet 0, .const 1,
      .binary .sub, .call 0, .binary .mul, .localSet 1, .close, .localGet 1] }

/-- With an empty alternative the product is the same, also after an invocation that is refused. -/
theorem invokeAll?_withBody_of_factorial :
    ∃ fuel, invokeAll? fuel [(0, [5]), (0, []), (0, [0])]
      (withBody 0 (factorialFunction.body.toList.insertIdx 11 .otherwise).toArray
        { functions := [factorialFunction] }) =
      some [.returns [120] [], .traps .argumentCount [], .returns [1] []] := by
  have lacks : factorialFunction.matchingElse 3 = none := by decide
  have ends : factorialFunction.matchingEnd 3 = 11 := by decide
  have closed : factorialFunction.matchingEnd 3 < factorialFunction.size := by decide
  have edit := @Function.Edit.otherwise factorialFunction 3 .empty rfl lacks closed
  rw [ends] at edit
  have answers : ∃ fuel, invokeAll? fuel [(0, [5]), (0, []), (0, [0])] { functions := [factorialFunction] } =
      some [.returns [120] [], .traps .argumentCount [], .returns [1] []] := ⟨80, by decide +kernel⟩
  exact ((invokeAll?_withBody rfl rfl edit _).1 _).mp answers

end Machine

end ScopeMachine
