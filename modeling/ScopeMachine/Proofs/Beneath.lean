import ScopeMachine.Proofs.Shape

/-! # What lies beneath an open scope

An instruction works on the operands of the innermost scope of the active frame, opens a scope inside
it or leaves scopes from the inside out, a call takes operands of that scope, and a return adds to it.
`Scope.KeptAround` says what all of this has in common for the scopes of a single frame, and
`Machine.Beneath` for the frames of a machine: the scopes around the innermost one and the frames below
stay as they are. So they stay as they are for as long as a scope inside them is open.
-/

namespace ScopeMachine

/-- Of two lists of open scopes, the outermost first, the second has those around the innermost one of
the first, as far as it has so many, and what is then in the place of that one has its shape. -/
structure Scope.KeptAround (before after : List Scope) : Prop where
  scopes : ∀ k < before.length, k ≤ after.length → after.take k = before.take k
  shape : ∀ k < before.length, k < after.length → after[k]?.map Scope.shape = before[k]?.map Scope.shape

namespace Scope.KeptAround

variable {before middle after : List Scope}

theorem refl (before : List Scope) : KeptAround before before := ⟨fun _ _ _ => rfl, fun _ _ _ => rfl⟩

/-- Nothing is lost on the way over a list that is at least as long. -/
theorem trans (more : before.length ≤ middle.length) (left : KeptAround before middle)
    (right : KeptAround middle after) : KeptAround before after where
  scopes k inside within := by rw [right.scopes k (by omega) within, left.scopes k inside (by omega)]
  shape k inside within := by rw [right.shape k (by omega) within, left.shape k inside (by omega)]

theorem append (before added : List Scope) : KeptAround before (before ++ added) where
  scopes k inside _ := List.take_append_of_le_length (Nat.le_of_lt inside)
  shape k inside _ := by rw [List.getElem?_append_left inside]

theorem take (n : Nat) (before : List Scope) : KeptAround before (before.take n) where
  scopes k _ within := by
    rw [List.length_take] at within
    rw [List.take_take, Nat.min_eq_left (by omega)]
  shape k _ within := by
    rw [List.length_take] at within
    rw [List.getElem?_take_of_lt (by omega)]

/-- The innermost scope may get another stack. -/
theorem innermost (outer : List Scope) {s t : Scope} (same : t.shape = s.shape) :
    KeptAround (outer ++ [s]) (outer ++ [t]) where
  scopes k inside _ := by
    have within : k ≤ outer.length := by simpa using Nat.le_of_lt_succ (by simpa using inside)
    rw [List.take_append_of_le_length within, List.take_append_of_le_length within]
  shape k _ _ := by
    rw [← List.getElem?_map, ← List.getElem?_map, List.map_append, List.map_append, List.map_singleton,
      List.map_singleton, same]

end Scope.KeptAround

namespace Frame

/-- All open scopes, the outermost first. -/
def layers (f : Frame) : List Scope := f.scopes.reverse

theorem layers_eq (f : Frame) : f.layers = f.root :: f.inner.reverse := f.reverse_scopes

theorem length_layers (f : Frame) : f.layers.length = f.depth := by
  rw [layers, List.length_reverse, length_scopes]

open Scope (KeptAround)

theorem keptAround_withStack (s : OperandStack) (f : Frame) : KeptAround f.layers (f.withStack s).layers := by
  obtain ⟨function, base, inner, locals, pc⟩ := f
  rw [layers_eq, layers_eq]
  cases inner with
  | nil => exact KeptAround.innermost [] rfl
  | cons scope outer =>
    have split (s : Scope) (root : Scope) : root :: (s :: outer).reverse = (root :: outer.reverse) ++ [s] := by
      rw [List.reverse_cons, List.cons_append]
    rw [split]
    change KeptAround _ (_ :: ({ scope with stack := s } :: outer).reverse)
    rw [split]
    exact KeptAround.innermost _ rfl

theorem length_layers_withStack (s : OperandStack) (f : Frame) :
    (f.withStack s).layers.length = f.layers.length := by
  rw [length_layers, length_layers, depth, depth, length_inner_withStack]

theorem layers_enter (type : BlockType) (target : Nat) (f : Frame) :
    (f.enter type target).layers = f.layers ++ [⟨.empty, type, target⟩] := List.reverse_cons

theorem layers_unwind (n : Nat) (f : Frame) : (f.unwind n).layers = f.layers.take (f.inner.length - (n + 1) + 1) := by
  rw [layers_eq, layers_eq, List.take_succ_cons, ← List.reverse_drop]
  rfl

theorem layers_leave (f : Frame) : f.leave.2.layers = (f.unwind 0).layers := by
  obtain ⟨function, base, inner, locals, pc⟩ := f
  cases inner <;> rfl

theorem keptAround_enter (type : BlockType) (target : Nat) (f : Frame) :
    KeptAround f.layers (f.enter type target).layers := layers_enter type target f ▸ .append _ _

theorem keptAround_unwind (n : Nat) (f : Frame) : KeptAround f.layers (f.unwind n).layers :=
  layers_unwind n f ▸ .take _ _

end Frame

namespace Instruction

open Scope (KeptAround)

/-- Whether an instruction can leave scopes. -/
def leavesScopes : Instruction → Bool
  | otherwise | close | br _ | brIf _ => true
  | _ => false

/-- An instruction keeps what is around the innermost scope. -/
theorem Moves.keptAround {f : Frame} {globals : List Value} {i : Instruction} {w : Workspace}
    (moves : i.Moves f.pc { frame := f.goto (f.pc + 1), globals } w) : KeptAround f.layers w.frame.layers := by
  have taken (s : OperandStack) : KeptAround f.layers ((f.goto (f.pc + 1)).withStack s).layers :=
    Frame.keptAround_withStack s (f.goto (f.pc + 1))
  have same (s : OperandStack) : f.layers.length ≤ ((f.goto (f.pc + 1)).withStack s).layers.length :=
    Nat.le_of_eq (Frame.length_layers_withStack s (f.goto (f.pc + 1))).symm
  cases moves with
  | @plain _ _ o isPlain computed =>
    exact Frame.keptAround_withStack o.stack { f with locals := o.locals, pc := f.pc + 1 }
  | block | loop => exact Frame.keptAround_enter _ _ (f.goto (f.pc + 1))
  | @holds _ _ _ below top nonzero => exact .trans (same ⟨below⟩) (taken ⟨below⟩) (Frame.keptAround_enter _ _ _)
  | @fails type _ below top =>
    unfold Frame.enterElse
    split
    · exact .trans (same ⟨below⟩) (taken ⟨below⟩) (Frame.keptAround_enter _ _ (Frame.goto _ _))
    · exact taken ⟨below⟩
  | otherwise => exact Frame.exit_eq_unwind _ ▸ Frame.keptAround_unwind 0 (f.goto (f.pc + 1))
  | close => exact Frame.layers_leave _ ▸ Frame.keptAround_unwind 0 (f.goto (f.pc + 1))
  | br branched =>
    obtain ⟨-, rfl⟩ := Frame.branch_eq_ok_iff.mp branched
    exact Frame.keptAround_unwind _ (f.goto (f.pc + 1))
  | @taken _ _ _ below _ top nonzero branched =>
    obtain ⟨-, rfl⟩ := Frame.branch_eq_ok_iff.mp branched
    exact .trans (same ⟨below⟩) (taken ⟨below⟩) (Frame.keptAround_unwind _ _)
  | @passed _ _ below top => exact taken ⟨below⟩

/-- Few routes leave scopes. -/
theorem Routes.leavesScopes {f : Function} {pc pc' : Nat} {i : Instruction} {shapes shapes' : List (BlockType × Nat)}
    (routes : i.Routes f pc shapes shapes' pc') (fewer : shapes'.length < shapes.length) : i.leavesScopes = true := by
  cases routes with
  | otherwise | close | br | taken | passed => rfl
  | onward | skips => exact (Nat.lt_irrefl _ fewer).elim
  | block | loop | holds | alternative =>
    rw [List.length_cons] at fewer
    omega

theorem Moves.leavesScopes {f : Frame} {globals : List Value} {i : Instruction} {w : Workspace}
    (moves : i.Moves f.pc { frame := f.goto (f.pc + 1), globals } w) (fewer : w.frame.depth < f.depth) :
    i.leavesScopes = true := by
  apply moves.routes.1.leavesScopes
  rw [Frame.length_shapes, Frame.length_shapes]
  exact Nat.lt_of_succ_lt_succ fewer

end Instruction

namespace Machine

open Scope (KeptAround)

variable {m m' : Machine} {f : Frame} {upper lower : List Frame}

/-- The frame with the given number of frames below it. -/
def frameAt? (height : Nat) (m : Machine) : Option Frame := m.frames.reverse[height]?

/-- Frames among which those below a given one are unchanged, and the scopes of that one around its
innermost scope too, unless it is gone with all frames above it. -/
def Beneath (f : Frame) (lower frames : List Frame) (leaves : Prop) : Prop :=
  frames.length ≤ lower.length ∨ ∃ upper g, frames = upper ++ g :: lower ∧ KeptAround f.layers g.layers ∧
    (g.depth < f.depth → leaves)

theorem length_retire (frames : m.frames = f :: lower) : m.retire.frames.length = lower.length := by
  cases lower <;> simp [retire, frames]

/-- A frame that is retired is above the given one, or is that one. -/
theorem beneath_retire (frames : m.frames = upper ++ f :: lower) : Beneath f lower m.retire.frames False := by
  match upper with
  | [] => exact .inl (Nat.le_of_eq (length_retire frames))
  | [top] =>
    refine .inr ⟨[], f.extend top.results, by simp only [retire, frames, List.cons_append, List.nil_append], ?_, ?_⟩
    · exact Frame.keptAround_withStack _ f
    · rw [Frame.extend, Frame.depth, Frame.depth, Frame.length_inner_withStack]
      exact Nat.lt_irrefl _
  | top :: next :: upper =>
    exact .inr ⟨next.extend top.results :: upper, f, by simp only [retire, frames, List.cons_append], .refl _,
      Nat.lt_irrefl _⟩

theorem beneath_retireFinished (upper : List Frame) (frames : m.frames = upper ++ f :: lower) :
    Beneath f lower m.retireFinished.frames False := by
  unfold retireFinished
  split
  · exact .inr ⟨upper, f, frames, .refl _, Nat.lt_irrefl _⟩
  · split
    · exact beneath_retire frames
    · exact .inr ⟨upper, f, frames, .refl _, Nat.lt_irrefl _⟩

/-- A call puts a frame on top and takes operands from its caller. -/
theorem Opens.frames_eq {index : UInt32} (opens : Opens index m m') (frames : m.frames = f :: lower) :
    ∃ callee s, m'.frames = callee :: f.withStack s :: lower := by
  cases opens with
  | first idle =>
    rw [idle] at frames
    cases frames
  | nested opened =>
    rw [opened] at frames
    obtain ⟨rfl, rfl⟩ := List.cons.inj frames
    exact ⟨_, _, rfl⟩

/-- A step keeps what is beneath the innermost scope of any frame, as far as there is still so much. It
leaves scopes of no other frame than the active one. -/
theorem Advances.beneath (advances : Advances m m') (frames : m.frames = upper ++ f :: lower) :
    Beneath f lower m'.frames
      (upper = [] ∧ ∃ i, f.instruction? = some i ∧ i.leavesScopes = true) := by
  have weaken {frames : List Frame} {leaves : Prop} (beneath : Beneath f lower frames False) :
      Beneath f lower frames leaves := by
    rcases beneath with gone | ⟨upper, g, same, kept, deep⟩
    · exact .inl gone
    · exact .inr ⟨upper, g, same, kept, fun fewer => (deep fewer).elim⟩
  cases advances with
  | rests idle => simp [idle] at frames
  | retires => exact weaken (beneath_retire frames)
  | @acts active callers i w opened next moves =>
    rw [opened] at frames
    cases upper with
    | nil =>
      obtain ⟨rfl, rfl⟩ := List.cons.inj frames
      have leaves (fewer : w.frame.depth < active.depth) :
          ([] : List Frame) = [] ∧ ∃ i, active.instruction? = some i ∧ i.leavesScopes = true :=
        ⟨rfl, i, next, moves.leavesScopes fewer⟩
      unfold retireFinished
      dsimp only
      split
      · exact .inl (Nat.le_of_eq (length_retire rfl))
      · exact .inr ⟨[], w.frame, rfl, moves.keptAround, leaves⟩
    | cons top upper =>
      obtain ⟨rfl, rfl⟩ := List.cons.inj frames
      exact weaken (beneath_retireFinished (w.frame :: upper) rfl)
  | @calls called active callers index opened next opens =>
    rw [opened] at frames
    obtain ⟨callee, s, above⟩ := opens.frames_eq rfl
    cases upper with
    | nil =>
      obtain ⟨rfl, rfl⟩ := List.cons.inj frames
      have taken := Frame.keptAround_withStack s (active.goto (active.pc + 1))
      have height := Frame.length_layers_withStack s (active.goto (active.pc + 1))
      rcases beneath_retireFinished [callee] above with gone | ⟨upper, g, same, kept, deep⟩
      · exact .inl gone
      · refine .inr ⟨upper, g, same, .trans (Nat.le_of_eq height.symm) taken kept, fun fewer => (deep ?_).elim⟩
        rw [Frame.length_layers, Frame.length_layers] at height
        exact height ▸ fewer
    | cons top upper =>
      obtain ⟨rfl, rfl⟩ := List.cons.inj frames
      exact weaken (beneath_retireFinished (callee :: _ :: upper) above)

theorem frameAt?_eq_some_iff {height : Nat} : m.frameAt? height = some f ↔
    ∃ upper lower, m.frames = upper ++ f :: lower ∧ lower.length = height := by
  unfold frameAt?
  constructor
  · intro found
    obtain ⟨bound, rfl⟩ := List.getElem?_eq_some_iff.mp found
    refine ⟨(m.frames.reverse.drop (height + 1)).reverse, (m.frames.reverse.take height).reverse, ?_, ?_⟩
    · apply List.reverse_inj.mp
      rw [List.reverse_append, List.reverse_cons, List.reverse_reverse, List.reverse_reverse, List.append_assoc,
        List.singleton_append, ← List.drop_eq_getElem_cons bound, List.take_append_drop]
    · rw [List.length_reverse, List.length_take]
      omega
  · rintro ⟨upper, lower, frames, rfl⟩
    rw [frames, List.reverse_append, List.reverse_cons, List.append_assoc, ← List.length_reverse]
    exact List.getElem?_append_right (Nat.le_refl _) |>.trans (by rw [Nat.sub_self]; rfl)

/-- The scope with the given number of scopes around it is open in the frame with the given number of
frames below it. -/
def HasOpen (height k : Nat) (m : Machine) : Prop := ∃ f, m.frameAt? height = some f ∧ k < f.depth

/-- A number of successful steps during which that scope stays open. A step leaves scopes or opens one,
but never both, so a place that is not empty after any of the steps holds the same scope all the time.
-/
inductive StepsInside (height k : Nat) : Nat → Machine → Machine → Prop
  | refl {m : Machine} (isOpen : m.HasOpen height k) : StepsInside height k 0 m m
  | cons {n : Nat} {m m' m'' : Machine} (isOpen : m.HasOpen height k) (head : step m = .ok () m')
      (tail : StepsInside height k n m' m'') : StepsInside height k (n + 1) m m''

variable {height k n : Nat}

theorem frameAt?_of_frames (frames : m.frames = upper ++ f :: lower) : m.frameAt? lower.length = some f :=
  frameAt?_eq_some_iff.mpr ⟨upper, lower, frames, rfl⟩

/-- Whatever is above, the frames below a frame are found by counting from the outermost one. -/
theorem frameAt?_below (frames : m.frames = upper ++ f :: lower) {below : Nat} (less : below < lower.length) :
    m.frameAt? below = lower.reverse[below]? := by
  rw [frameAt?, frames, List.reverse_append, List.reverse_cons, List.append_assoc]
  exact List.getElem?_append_left (by rwa [List.length_reverse])

theorem frameAt?_of_length_le (few : m.frames.length ≤ height) : m.frameAt? height = none :=
  List.getElem?_eq_none (by rwa [List.length_reverse])

theorem StepsInside.startsOpen (steps : StepsInside height k n m m') : m.HasOpen height k := by
  cases steps with
  | refl isOpen => exact isOpen
  | cons isOpen => exact isOpen

theorem StepsInside.endsOpen (steps : StepsInside height k n m m') : m'.HasOpen height k := by
  induction steps with
  | refl isOpen => exact isOpen
  | cons _ _ _ ih => exact ih

/-- A frame as it was, but for what happens inside one of its scopes, above the same frames as before. -/
structure SameBeneath (k : Nat) (f : Frame) (lower : List Frame) (m : Machine) (g : Frame) : Prop where
  frames : ∃ upper, m.frames = upper ++ g :: lower
  layers : g.layers.take k = f.layers.take k
  shape : g.layers[k]?.map Scope.shape = f.layers[k]?.map Scope.shape

theorem SameBeneath.refl (frames : m.frames = upper ++ f :: lower) : SameBeneath k f lower m f :=
  ⟨⟨upper, frames⟩, rfl, rfl⟩

theorem SameBeneath.step {g : Frame} (same : SameBeneath k f lower m g) (within : k < g.depth)
    (advances : Advances m m')
    (isOpen : m'.HasOpen lower.length k) : ∃ h, SameBeneath k f lower m' h := by
  obtain ⟨upper, frames⟩ := same.frames
  obtain ⟨h, found, within'⟩ := isOpen
  rcases advances.beneath frames with gone | ⟨upper', h', frames', kept, -⟩
  · rw [frameAt?_of_length_le gone] at found
    cases found
  · rw [frameAt?_of_frames frames'] at found
    obtain rfl := Option.some.inj found
    rw [← Frame.length_layers] at within within'
    exact ⟨h', ⟨upper', frames'⟩, (kept.scopes k within (Nat.le_of_lt within')).trans same.layers,
      (kept.shape k within within').trans same.shape⟩

theorem StepsInside.sameBeneath (steps : StepsInside lower.length k n m m') {g : Frame}
    (same : SameBeneath k f lower m g) : ∃ h, SameBeneath k f lower m' h := by
  induction steps generalizing g with
  | refl => exact ⟨g, same⟩
  | cons isOpen head tail ih =>
    obtain ⟨g', found, within⟩ := isOpen
    obtain ⟨upper, frames⟩ := same.frames
    rw [frameAt?_of_frames frames] at found
    obtain rfl := Option.some.inj found
    obtain ⟨h, same⟩ := same.step within (step_eq_ok_iff.mp head) tail.startsOpen
    exact ih same

/-- As long as a scope stays open, whatever is done in it and in the calls made from it, the scopes
around it keep their operands, types and targets, and the frames below its frame do not change at all.
The step that leaves it, unless it finishes the frame, is taken by an instruction that leaves scopes and
lets just those around it remain, as they were. -/
theorem beneath_open_scope {m m' : Machine} {f : Frame} {height k n : Nat} (frame : m.frameAt? height = some f)
    (steps : StepsInside height k n m m') :
    ∃ g, m'.frameAt? height = some g ∧ g.layers.take k = f.layers.take k ∧
      g.layers[k]?.map Scope.shape = f.layers[k]?.map Scope.shape ∧
      (∀ below < height, m'.frameAt? below = m.frameAt? below) ∧
      ∀ m'' h, step m' = .ok () m'' → m''.frameAt? height = some h → h.depth ≤ k →
        (∃ i, m'.active? = some g ∧ g.instruction? = some i ∧ i.leavesScopes = true) ∧
        h.layers = g.layers.take h.depth ∧ h.layers = f.layers.take h.depth ∧
        ∀ below < height, m''.frameAt? below = m.frameAt? below := by
  obtain ⟨upper, lower, frames, rfl⟩ := frameAt?_eq_some_iff.mp frame
  obtain ⟨g, same⟩ := steps.sameBeneath (.refl frames)
  obtain ⟨upper', frames'⟩ := same.frames
  have within : k < g.depth := by
    obtain ⟨g', found, within⟩ := steps.endsOpen
    rw [frameAt?_of_frames frames'] at found
    obtain rfl := Option.some.inj found
    exact within
  refine ⟨g, frameAt?_of_frames frames', same.layers, same.shape, ?_, ?_⟩
  · intro below less
    rw [frameAt?_below frames' less, frameAt?_below frames less]
  · intro m'' h head found left
    rcases (step_eq_ok_iff.mp head).beneath frames' with gone | ⟨upper'', h', frames'', kept, leaves⟩
    · rw [frameAt?_of_length_le gone] at found
      cases found
    rw [frameAt?_of_frames frames''] at found
    obtain rfl := Option.some.inj found
    obtain ⟨rfl, i, next, leaves⟩ := leaves (by omega)
    have remains : h'.layers = g.layers.take h'.depth := by
      rw [← Frame.length_layers] at within left ⊢
      rw [← kept.scopes h'.layers.length (by omega) (Nat.le_refl _), List.take_length]
    refine ⟨⟨i, ?_, next, leaves⟩, remains, ?_, ?_⟩
    · rw [active?, frames']
      rfl
    · rw [remains, ← Nat.min_eq_left left, ← List.take_take, same.layers, List.take_take, Nat.min_eq_left left]
    · intro below less
      rw [frameAt?_below frames'' less, frameAt?_below frames less]

/-- A machine inside the outer one of two blocks, above an operand. A helper is called from the inner
block, which is then left together with the outer one. -/
def insideBlocks : Machine :=
  let main : Function := { body := #[.const 7, .enter .block .empty, .const 1, .enter .block .empty, .call 1, .br 1,
    .close, .close, .drop] }
  let helper : Function := { body := #[.const 3] }
  { functions := [main, helper]
    frames := [{ function := main, base := .ofList [7], inner := [{ type := .empty, target := 8 }], locals := [], pc := 2 }] }

theorem beneath_open_scope_of_blocks :
    ∃ f g h m' m'', insideBlocks.frameAt? 0 = some f ∧ StepsInside 0 1 4 insideBlocks m' ∧
      m'.frameAt? 0 = some g ∧ g.depth = 3 ∧ g.layers.take 1 = f.layers.take 1 ∧
      step m' = .ok () m'' ∧ m''.frameAt? 0 = some h ∧ h.layers = f.layers.take 1 := by
  have run : ∃ m' m'' h, StepsInside 0 1 4 insideBlocks m' ∧ (m'.frameAt? 0).map Frame.depth = some 3 ∧
      step m' = .ok () m'' ∧ m''.frameAt? 0 = some h ∧ h.depth = 1 :=
    ⟨_, _, _, .cons ⟨_, rfl, by decide⟩ rfl (.cons ⟨_, rfl, by decide⟩ rfl (.cons ⟨_, rfl, by decide⟩ rfl
      (.cons ⟨_, rfl, by decide⟩ rfl (.refl ⟨_, rfl, by decide⟩)))), rfl, rfl, rfl, rfl⟩
  obtain ⟨m', m'', h, steps, deep, head, found, depth⟩ := run
  obtain ⟨g, found', same, -, -, left⟩ := beneath_open_scope (f := insideBlocks.frames[0]) rfl steps
  obtain ⟨-, -, remains, -⟩ := left m'' h head found (Nat.le_of_eq depth)
  rw [found'] at deep
  exact ⟨_, g, h, m', m'', rfl, steps, found', Option.some.inj deep, same, head, found, depth ▸ remains⟩

end Machine

end ScopeMachine
