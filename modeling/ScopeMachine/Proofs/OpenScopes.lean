import ScopeMachine.Proofs.Nesting
import ScopeMachine.Proofs.Shape

/-! # The open scopes of running frames

As long as no step fails, the scopes that a frame has open are those that are open at its position by
the static nesting of its body. A frame that has reached the end of its body by a jump may still show
the scopes of the place that it comes from. A step that fails leaves its frame behind the failing
instruction without the scopes that the instruction would have opened or left, so the comparison
stops there until the machine is idle again.
-/

namespace ScopeMachine

namespace Function

variable {f : Function} {pc : Nat} {shapes : List (BlockType × Nat)}

/-- The shapes are those of the static nesting at a position, or at a place that the end of the body
has been reached from; there is none left there if every opener is closed. -/
def Tracks (f : Function) (shapes : List (BlockType × Nat)) (pc : Nat) : Prop :=
  ∃ place ≤ f.size, shapes = (f.enclosing place).map f.scopeAt ∧
    (place = pc ∨ pc = f.size ∧ (f.Closed → shapes = []))

namespace Tracks

theorem entering : f.Tracks [] 0 := ⟨0, Nat.zero_le _, rfl, .inl rfl⟩

theorem nil_size : f.Tracks [] f.size := ⟨0, Nat.zero_le _, rfl, .inr ⟨rfl, fun _ => rfl⟩⟩

theorem at_ (within : pc ≤ f.size) (same : shapes = (f.enclosing pc).map f.scopeAt) : f.Tracks shapes pc :=
  ⟨pc, within, same, .inl rfl⟩

/-- Inside the body the shapes are those of the position itself. -/
theorem inside (tracks : f.Tracks shapes pc) (bound : pc < f.size) :
    shapes = (f.enclosing pc).map f.scopeAt := by
  rcases tracks with ⟨place, -, same, rfl | ⟨finished, -⟩⟩
  · exact same
  · omega

theorem closed (tracks : f.Tracks shapes f.size) (closed : f.Closed) : shapes = [] := by
  rcases tracks with ⟨place, -, same, rfl | ⟨-, none⟩⟩
  · rw [same, closed.enclosing_size]
    rfl
  · exact none closed

theorem length_le (tracks : f.Tracks shapes pc) : shapes.length ≤ f.nestingDepth := by
  obtain ⟨place, within, same, -⟩ := tracks
  rw [same, List.length_map]
  exact length_enclosing_le within

end Tracks

/-- What continues behind a scope that may have no end has left all scopes if every opener is closed. -/
theorem tracks_afterEnd {opener : Nat} {place : Nat} (within : place ≤ f.size)
    (opens : f.opens opener = true) (same : shapes = (f.enclosing place).map f.scopeAt)
    (after : f.matchingEnd opener < f.size →
      f.enclosing (f.matchingEnd opener + 1) = f.enclosing place) :
    f.Tracks shapes (f.afterEnd opener) := by
  rcases Nat.lt_or_ge (f.matchingEnd opener) f.size with closed | open_
  · have target : f.afterEnd opener = f.matchingEnd opener + 1 := Nat.min_eq_left closed
    rw [target]
    exact .at_ closed (by rw [after closed, same])
  · have target : f.afterEnd opener = f.size := Nat.min_eq_right (Nat.le_succ_of_le open_)
    rw [target]
    refine ⟨place, within, same, .inr ⟨rfl, ?_⟩⟩
    intro all
    have closed := all opener opens
    omega

/-- Leaving scopes by a jump arrives where the scopes around them are open. -/
theorem tracks_unwind (within : pc ≤ f.size) (same : shapes = (f.enclosing pc).map f.scopeAt)
    (n : Nat) : f.Tracks (shapes.drop (n + 1)) (shapes[n]?.elim f.size Prod.snd) := by
  subst same
  rw [List.getElem?_map, ← List.map_drop]
  cases found : (f.enclosing pc)[n]? with
  | none =>
    have beyond := List.getElem?_eq_none_iff.mp found
    rw [List.drop_of_length_le (Nat.le_succ_of_le beyond)]
    exact .nil_size
  | some opener =>
    obtain ⟨before, opens, stillOpen⟩ := mem_enclosing.mp (List.mem_of_getElem? found)
    have around := enclosing_opener within found
    have earlier : opener ≤ f.size := by omega
    obtain ⟨kind, type, next⟩ := opens_iff.mp opens
    rw [← around]
    change f.Tracks _ (f.scopeAt opener).2
    by_cases isLoop : kind = .loop
    · subst isLoop
      rw [scopeAt_loop next]
      exact .at_ earlier rfl
    · rw [scopeAt_of_ne_loop next isLoop]
      apply tracks_afterEnd earlier opens rfl
      intro closed
      rw [enclosing_after found closed, around]

end Function

/-- Every route from a position where the static scopes are open arrives where they are open again. -/
theorem Instruction.Routes.tracks {f : Function} {pc pc' : Nat} {i : Instruction}
    {shapes shapes' : List (BlockType × Nat)} (routes : i.Routes f pc shapes shapes' pc')
    (next : f.body[pc]? = some i) (tracks : f.Tracks shapes pc) : f.Tracks shapes' pc' := by
  have bound : pc < f.size := (Array.getElem?_eq_some_iff.mp next).1
  have within : pc ≤ f.size := Nat.le_of_lt bound
  have aligned := Function.aligned within
  have same := tracks.inside bound
  cases routes with
  | onward isPlain =>
    have stays : f.enclosing (pc + 1) = f.enclosing pc := by
      cases i with
      | enter | otherwise | close | br | brIf | call => cases isPlain
      | _ => exact aligned.stays next rfl nofun
    exact .at_ bound (by rw [stays, same])
  | passed => exact .at_ bound (by rw [aligned.stays next rfl nofun, same])
  | block | holds =>
    apply Function.Tracks.at_ bound
    rw [aligned.enter next, List.map_cons, Function.scopeAt_of_ne_loop next nofun, same]
  | loop =>
    apply Function.Tracks.at_ bound
    rw [aligned.enter next, List.map_cons, Function.scopeAt_loop next, same]
  | alternative found =>
    obtain ⟨-, otherwise⟩ := Function.matchingElse_spec next found
    apply Function.Tracks.at_ (Array.getElem?_eq_some_iff.mp otherwise).1
    rw [Function.enclosing_matchingElse next found, List.map_cons, Function.scopeAt_of_ne_loop next nofun, same]
  | skips =>
    have opens : f.opens pc = true := Function.opens_iff.mpr ⟨_, _, next⟩
    exact Function.tracks_afterEnd within opens same (Function.enclosing_matchingEnd next)
  | otherwise => exact Function.tracks_unwind within same 0
  | br => exact Function.tracks_unwind within same _
  | taken => exact Function.tracks_unwind within same _
  | close =>
    split
    · rename_i none
      rw [none]
      exact .nil_size
    · apply Function.Tracks.at_ bound
      rw [aligned.close next, List.map_drop, same]

namespace Machine

theorem frameInvariant_tracks (functions : List Function) :
    FrameInvariant false functions fun f => f.function.Tracks f.shapes f.pc where
  withStack s tracks := by
    rwa [Frame.shapes_withStack, Frame.function_withStack, Frame.pc_withStack]
  entering _ _ := .entering
  moves next moves tracks := by
    obtain ⟨routes, function, -⟩ := moves.routes
    rw [function]
    exact routes.tracks next tracks
  passes {f index} next tracks := by
    have bound : f.pc < f.function.size := (Array.getElem?_eq_some_iff.mp next).1
    have stays := (Function.aligned (Nat.le_of_lt bound)).stays next rfl nofun
    exact .at_ bound (by rw [Frame.shapes_goto, tracks.inside bound]; exact congrArg _ stays.symm)
  traps mark := nomatch mark

/-- A machine reached from an idle one by operations in which no step has failed since then. -/
inductive Untrapped : Machine → Prop
  | idle {m : Machine} (idle : m.frames = []) : Untrapped m
  | next {op : Operation} (fuel : Nat) {m m' : Machine} (before : Untrapped m)
      (performed : op.perform? fuel m = some (false, m')) : Untrapped m'

theorem Untrapped.tracks {m : Machine} (untrapped : m.Untrapped) :
    ∀ f ∈ m.frames, f.function.Tracks f.shapes f.pc := by
  induction untrapped with
  | idle idle =>
    rw [idle]
    exact nofun
  | next fuel _ performed ih =>
    apply (Operation.transitions performed).preserves
      (P := fun m => ∀ f ∈ m.frames, f.function.Tracks f.shapes f.pc) _ ih
    intro mark m m' quiet transition all
    cases mark with
    | true => cases quiet rfl
    | false => exact (frameInvariant_tracks m.functions).transition transition all

/-- The scopes that a frame inside its body has open are those of the openers that are open at its
position, each with the opener's type and continuing where the opener says; at the end of a body in
which every opener is closed none is open. So there are never more than the static nesting has. -/
theorem openScopes_of_untrapped {m : Machine} (untrapped : m.Untrapped) {f : Frame} (member : f ∈ m.frames) :
    (f.pc < f.function.size →
      f.inner.reverse.map Scope.shape = (f.function.openAt f.pc).map f.function.scopeAt) ∧
    (f.function.Closed → f.pc = f.function.size → f.inner = []) ∧
    f.inner.length ≤ f.function.nestingDepth := by
  have tracks := untrapped.tracks f member
  refine ⟨?_, ?_, ?_⟩
  · intro bound
    have same : f.inner.map Scope.shape = _ := tracks.inside bound
    rw [List.map_reverse, same, Function.enclosing, List.map_reverse, List.reverse_reverse]
  · intro closed finished
    rw [finished] at tracks
    exact List.map_eq_nil_iff.mp (tracks.closed closed)
  · exact f.length_shapes ▸ tracks.length_le

/-- In a loop that has been restarted from inside a block, the loop and the block are open again. -/
theorem openScopes_of_restarted_loop :
    ∃ (m : Machine) (f : Frame), m.Untrapped ∧ f ∈ m.frames ∧ f.pc < f.function.size ∧
      f.function.openAt f.pc = [0, 1] ∧
      f.inner.reverse.map Scope.shape = (f.function.openAt f.pc).map f.function.scopeAt ∧
      f.inner.length ≤ f.function.nestingDepth := by
  have reached : ∃ (m : Machine) (f : Frame), m.Untrapped ∧ m.frames = [f] ∧ f.pc < f.function.size ∧
      f.function.openAt f.pc = [0, 1] :=
    ⟨_, _, @Untrapped.next (.runSteps 5) 0 _ _ (@Untrapped.next (.start 0 []) 0
      { functions := [{ body := #[.enter .loop .empty, .enter .block .empty, .br 1, .close, .close] }] } _
      (.idle rfl) rfl) rfl, rfl, by decide, by decide⟩
  obtain ⟨m, f, untrapped, frames, bound, openers⟩ := reached
  have member : f ∈ m.frames := by
    rw [frames]
    exact List.mem_cons_self
  obtain ⟨scopes, -, depth⟩ := openScopes_of_untrapped untrapped member
  exact ⟨m, f, untrapped, member, bound, openers, scopes bound, depth⟩

end Machine

end ScopeMachine
