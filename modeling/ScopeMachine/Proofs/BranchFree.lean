import ScopeMachine.Proofs.Beneath
import ScopeMachine.Proofs.LoopFree
import ScopeMachine.Proofs.Portions

/-! # Machines without branches

Openers of loops do no harm by themselves: without `br` and `brIf` nothing asks for the target of a loop but an
alternative that stands directly in it. Such an alternative leaves the loop and goes on at its opener
(`Function.RestartsAt`); everything else leads forward (`Instruction.Routes.forward_or_restarts`). So a run
without branches ends as a run without loops does, or it comes to an alternative of this kind, and then it may
go on forever (`Machine.runsForever_of_restart`).
-/

namespace ScopeMachine

/-- Whether an instruction branches to a label. -/
def Instruction.isBranch : Instruction → Bool
  | br _ | brIf _ => true
  | _ => false

namespace Function

/-- No instruction of the body is a branch. -/
def BranchFree (f : Function) : Prop := ∀ i ∈ f.body, i.isBranch = false

instance (f : Function) : Decidable f.BranchFree :=
  inferInstanceAs (Decidable (∀ i ∈ f.body, i.isBranch = false))

/-- At a position stands an alternative whose innermost scope is that of a loop. -/
def RestartsAt (f : Function) (pc opener : Nat) : Prop :=
  f.body[pc]? = some .otherwise ∧ (f.enclosing pc).head? = some opener ∧
    f.body[opener]?.any Instruction.isLoop = true

instance (f : Function) (pc opener : Nat) : Decidable (f.RestartsAt pc opener) :=
  inferInstanceAs (Decidable (_ ∧ _ ∧ _))

end Function

/-- In a function without branches every route leads forward, except from an alternative directly in a loop to
the opener of that loop. -/
theorem Instruction.Routes.forward_or_restarts {f : Function} {pc pc' : Nat} {i : Instruction}
    {shapes shapes' : List (BlockType × Nat)} (routes : i.Routes f pc shapes shapes' pc') (branchFree : f.BranchFree)
    (next : f.body[pc]? = some i) (tracks : f.Tracks shapes pc) : pc < pc' ∨ f.RestartsAt pc pc' := by
  have bound : pc < f.size := (Array.getElem?_eq_some_iff.mp next).1
  have member := Array.mem_of_getElem? next
  cases routes with
  | onward | block | loop | holds => exact .inl (Nat.lt_succ_self pc)
  | alternative found => exact .inl (Nat.lt_succ_of_lt (Function.matchingElse_spec next found).1)
  | skips => exact .inl (Function.lt_afterEnd next)
  | br | taken | passed => cases branchFree _ member
  | otherwise =>
    rcases Function.lt_target_or_loop bound tracks 0 with onward | ⟨opener, type, inside, loop, target⟩
    · exact .inl onward
    · rw [target]
      refine .inr ⟨next, by rw [List.head?_eq_getElem?, inside], ?_⟩
      rw [loop]
      rfl
  | close =>
    left
    split
    · exact bound
    · exact Nat.lt_succ_self pc

/-- An alternative goes on behind the scope that it stands directly in, or at its opener if that is a loop. -/
theorem Instruction.Routes.pc_of_otherwise {f : Function} {pc pc' opener : Nat}
    {shapes shapes' : List (BlockType × Nat)} (routes : Routes f pc shapes .otherwise shapes' pc')
    (bound : pc < f.size) (tracks : f.Tracks shapes pc) (inside : (f.enclosing pc).head? = some opener) :
    pc' = if f.body[opener]?.any isLoop = true then opener else f.afterEnd opener := by
  obtain ⟨-, opens, -⟩ := Function.mem_enclosing.mp (List.mem_of_mem_head? inside)
  obtain ⟨kind, type, next⟩ := Function.opens_iff.mp opens
  have target : pc' = (f.scopeAt opener).2 := by
    cases routes with
    | onward isPlain => cases isPlain
    | otherwise =>
      rw [tracks.inside bound, List.getElem?_map, ← List.head?_eq_getElem?, inside]
      rfl
  rw [target, next]
  by_cases isLoop : kind = .loop
  · subst isLoop
    rw [Function.scopeAt_loop next]
    rfl
  · rw [Function.scopeAt_of_ne_loop next isLoop]
    cases kind with
    | loop => exact (isLoop rfl).elim
    | block | cond => rfl

namespace Machine

variable {m m' : Machine} {f : Frame} {callers : List Frame}

/-- The active frame is at an alternative directly in a loop. -/
def Restarts (m : Machine) : Prop :=
  ∃ f callers opener, m.frames = f :: callers ∧ f.function.RestartsAt f.pc opener

theorem retireFinished_eq (m : Machine) : m.retireFinished = m ∨ m.retireFinished = m.retire := by
  unfold retireFinished
  split
  · exact .inl rfl
  · split
    · exact .inr rfl
    · exact .inl rfl

/-- Of two frames above the same callers, however many frames are above either, the first is the second. -/
private theorem eq_of_frames_eq (upper : List Frame) {upper' : List Frame} {g g' : Frame}
    (same : upper ++ g :: callers = upper' ++ g' :: callers) : g' = g :=
  (List.cons.inj (List.append_inj_right' same rfl)).1.symm

/-- As long as the active frame is not retired, a step takes it along a route of its instruction or past a
call. -/
theorem Advances.routes (advances : Advances m m') (frames : m.frames = f :: callers) {upper : List Frame} {g : Frame}
    (after : m'.frames = upper ++ g :: callers) :
    (∃ i, f.instruction? = some i ∧ i.Routes f.function f.pc f.shapes g.shapes g.pc) ∨
      ∃ index, f.instruction? = some (.call index) ∧ g.pc = f.pc + 1 := by
  have gone {n : Machine} (retired : n.frames.length = callers.length) : n.frames ≠ upper ++ g :: callers := by
    intro same
    rw [same, List.length_append, List.length_cons] at retired
    omega
  cases advances with
  | rests idle =>
    rw [frames] at idle
    cases idle
  | retires => exact (gone (length_retire frames) after).elim
  | @acts f' callers' i w opened next moves =>
    obtain ⟨rfl, rfl⟩ := List.cons.inj (frames.symm.trans opened)
    rcases retireFinished_eq _ with same | retired
    · rw [same] at after
      obtain rfl := eq_of_frames_eq [] after
      exact .inl ⟨i, next, moves.routes.1⟩
    · rw [retired] at after
      exact (gone (length_retire rfl) after).elim
  | @calls called f' callers' index opened next opens =>
    obtain ⟨rfl, rfl⟩ := List.cons.inj (frames.symm.trans opened)
    obtain ⟨callee, s, entered⟩ := opens.frames_eq rfl
    refine .inr ⟨index, next, ?_⟩
    rcases retireFinished_eq called with same | retired
    · rw [same, entered] at after
      obtain rfl := eq_of_frames_eq [callee] after
      exact Frame.pc_withStack ..
    · rw [retired] at after
      simp only [retire, entered] at after
      obtain rfl := eq_of_frames_eq [] after
      rw [Frame.extend, Frame.pc_withStack, Frame.pc_withStack]
      rfl

/-- Unless the active frame is at an alternative directly in a loop, what it does within itself leads it
forward. -/
theorem movesOn_of_branchFree (branchFree : ∀ f ∈ m.frames, f.function.BranchFree)
    (tracks : ∀ f ∈ m.frames, f.function.Tracks f.shapes f.pc) (onward : ¬ m.Restarts) : m.MovesOn := by
  intro f callers i w frames next moves
  have member : f ∈ m.frames := frames ▸ List.mem_cons_self
  rcases moves.routes.1.forward_or_restarts (branchFree f member) next (tracks f member) with further | restarts
  · exact further
  · exact (onward ⟨f, callers, _, frames, restarts⟩).elim

/-- Steps that lead back to where they started from can be taken again and again. -/
theorem Steps.iterate {k : Nat} (cycle : Steps k m m) (n : Nat) : Steps (n * k) m m := by
  induction n with
  | zero =>
    rw [Nat.zero_mul]
    exact .refl m
  | succ n ih =>
    rw [Nat.succ_mul]
    exact ih.append cycle

/-- A run that comes back to where it has been goes on forever. -/
theorem RunsForever.of_cycle {k : Nat} (cycle : Steps (k + 1) m m) : RunsForever m := by
  have longer (n : Nat) : n < (n + 1) * (k + 1) :=
    Nat.lt_of_lt_of_le (Nat.lt_succ_self n) (Nat.le_mul_of_pos_right _ (Nat.succ_pos k))
  rcases finishes_or_traps_or_runsForever m with ⟨n, m', finishes⟩ | ⟨n, e, m', traps⟩ | endless
  · exact absurd (finishes.le (cycle.iterate (n + 1))) (Nat.not_le.mpr (longer n))
  · exact absurd (traps.le (cycle.iterate (n + 1))) (Nat.not_le.mpr (longer n))
  · exact endless

/-- A run in which every frame moves on ends before the bound is used up. -/
theorem isSome_run?_of_movesOn {started : Machine} {index : UInt32} {args : List Value} {limit : Nat}
    (starts : start index args m = .ok () started)
    (enough : stepBound (m.functions.map Function.size) m.maxDepth ≤ limit)
    (onward : ∀ k < limit, ∀ mid, Steps k started mid → mid.MovesOn) : (run? limit started).isSome = true := by
  apply isSome_run?_of_steps
  intro m' steps
  exact frames_eq_nil_of_remaining (steps.remaining_eq_zero_of_movesOn onward starts enough)

/-- A run whose end is seen has finished or trapped before that. -/
theorem ends_of_isSome_run? {limit : Nat} (answers : (run? limit m).isSome = true) :
    (∃ k ≤ limit, ∃ m', Finishes k m m') ∨ ∃ k < limit, ∃ e m', Traps k m e m' := by
  obtain ⟨result, ended⟩ := Option.isSome_iff_exists.mp answers
  obtain ⟨n, within, ends⟩ := run?_eq_some_iff.mp ended
  cases result with
  | ok _ m' => exact .inl ⟨n, within, m', ends⟩
  | error e m' =>
    obtain ⟨k, rfl, traps⟩ := ends
    exact .inr ⟨k, within, e, m', traps⟩

/-- A run without branches ends before the bound is used up if it comes to no alternative directly in a loop until
then. -/
theorem ends_of_never_restarts {started : Machine} {index : UInt32} {args : List Value} {limit : Nat}
    (branchFree : ∀ f ∈ m.functions, f.BranchFree) (starts : start index args m = .ok () started)
    (enough : stepBound (m.functions.map Function.size) m.maxDepth ≤ limit)
    (onward : ∀ k < limit, ∀ mid, Steps k started mid → ¬ mid.Restarts) :
    (run? limit started).isSome ∧
      ((∃ k ≤ limit, ∃ m', Finishes k started m') ∨ ∃ k < limit, ∃ e m', Traps k started e m') := by
  have moves : ∀ k < limit, ∀ mid, Steps k started mid → mid.MovesOn := by
    intro k less mid steps
    have frames := known_tracks_of_start starts steps
    apply movesOn_of_branchFree
    · exact fun f member => branchFree f.function (frames f member).1
    · exact fun f member => (frames f member).2
    · exact onward k less mid steps
  have answers := isSome_run?_of_movesOn starts enough moves
  exact ⟨answers, ends_of_isSome_run? answers⟩

/-- Without branches only an alternative directly in a loop leads a frame back, namely to the opener of that loop;
in any other scope it leads behind that scope. A run that comes to no alternative in a loop within as many steps
as the lengths of the bodies and the limit on frames allow for has finished or trapped by then. So every run ends
on a machine whose functions have none. -/
theorem ends_or_restarts_of_branchFree {m started : Machine} {index : UInt32} {args : List Value} {limit : Nat}
    (branchFree : ∀ f ∈ m.functions, f.BranchFree) (starts : start index args m = .ok () started)
    (enough : stepBound (m.functions.map Function.size) m.maxDepth ≤ limit) :
    (∀ k mid next f callers upper g, Steps k started mid → mid.frames = f :: callers → step mid = .ok () next →
      next.frames = upper ++ g :: callers → (f.pc < g.pc ∨ f.function.RestartsAt f.pc g.pc) ∧
        ∀ opener, f.instruction? = some .otherwise → (f.function.enclosing f.pc).head? = some opener →
          g.pc = if f.function.body[opener]?.any Instruction.isLoop then opener else f.function.afterEnd opener) ∧
    ((∃ k ≤ limit, ∃ m', Finishes k started m') ∨ (∃ k < limit, ∃ e m', Traps k started e m') ∨
      ∃ k < limit, ∃ mid, Steps k started mid ∧ mid.Restarts) ∧
    ((∀ f ∈ m.functions, ∀ pc opener, ¬ f.RestartsAt pc opener) →
      (run? limit started).isSome ∧
        ((∃ k ≤ limit, ∃ m', Finishes k started m') ∨ ∃ k < limit, ∃ e m', Traps k started e m')) := by
  have ends := ends_of_never_restarts branchFree starts enough
  refine ⟨?_, ?_, ?_⟩
  · intro k mid next f callers upper g steps frames head after
    obtain ⟨known, tracks⟩ := known_tracks_of_start starts steps f (frames ▸ List.mem_cons_self)
    rcases (step_eq_ok_iff.mp head).routes frames after with ⟨i, here, routes⟩ | ⟨index, call, past⟩
    · refine ⟨routes.forward_or_restarts (branchFree f.function known) here tracks, ?_⟩
      intro opener otherwise inside
      obtain rfl := Option.some.inj (here.symm.trans otherwise)
      exact routes.pc_of_otherwise (Array.getElem?_eq_some_iff.mp otherwise).1 tracks inside
    · refine ⟨.inl (Nat.lt_of_lt_of_eq (Nat.lt_succ_self f.pc) past.symm), ?_⟩
      intro opener otherwise
      cases call.symm.trans otherwise
  · by_cases restarts : ∃ k < limit, ∃ mid, Steps k started mid ∧ mid.Restarts
    · exact .inr (.inr restarts)
    · rcases (ends fun k less mid steps at_ => restarts ⟨k, less, mid, steps, at_⟩).2 with finishes | traps
      · exact .inl finishes
      · exact .inr (.inl traps)
  · intro never
    apply ends
    rintro k - mid steps ⟨f, callers, opener, frames, restarts⟩
    obtain ⟨known, -⟩ := known_tracks_of_start starts steps f (frames ▸ List.mem_cons_self)
    exact never f.function known f.pc opener restarts

/-- A function that calls itself from inside a loop as often as its argument says, and has an alternative for the
last time. -/
def countdown : Machine :=
  { functions := [{ params := [.i32], body := #[.enter .loop .empty, .localGet 0, .enter .cond .empty, .localGet 0,
      .const 1, .binary .sub, .call 0, .otherwise, .const 7, .drop, .close, .close] }]
    maxDepth := 3 }

theorem ends_or_restarts_of_branchFree_countdown :
    (∀ f ∈ countdown.functions, f.BranchFree) ∧ (∀ f ∈ countdown.functions, ∀ pc opener, ¬ f.RestartsAt pc opener) ∧
      stepBound (countdown.functions.map Function.size) countdown.maxDepth ≤ 2041 ∧
      ∃ started, start 0 [2] countdown = .ok () started ∧ (run? 2041 started).isSome ∧
        ((∃ k ≤ 2041, ∃ m', Finishes k started m') ∨ ∃ k < 2041, ∃ e m', Traps k started e m') := by
  have branchFree : ∀ f ∈ countdown.functions, f.BranchFree := by decide
  have enough : stepBound (countdown.functions.map Function.size) countdown.maxDepth ≤ 2041 := by decide
  have never : ∀ f ∈ countdown.functions, ∀ pc opener, ¬ f.RestartsAt pc opener := by
    intro f member pc opener restarts
    obtain ⟨otherwise, innermost, loop⟩ := restarts
    have within : pc < f.size := (Array.getElem?_eq_some_iff.mp otherwise).1
    obtain rfl := List.mem_singleton.mp member
    have place : ∀ pc < 12, countdown.functions[0].body[pc]? = some .otherwise → pc = 7 := by decide
    obtain rfl := place pc within otherwise
    have condition : (countdown.functions[0].enclosing 7).head? = some 2 := by decide
    obtain rfl := Option.some.inj (condition.symm.trans innermost)
    cases loop
  have started : ∃ started, start 0 [2] countdown = .ok () started := ⟨_, rfl⟩
  obtain ⟨started, starts⟩ := started
  obtain ⟨-, -, ends⟩ := ends_or_restarts_of_branchFree branchFree starts enough
  exact ⟨branchFree, never, enough, started, starts, ends never⟩

/-- A function with an alternative directly in a loop. -/
def restarting : Machine := { functions := [{ body := #[.enter .loop .empty, .otherwise, .close] }] }

/-- A run without branches can go on forever. -/
theorem runsForever_of_restart : (∀ f ∈ restarting.functions, f.BranchFree) ∧
    ∃ started, start 0 [] restarting = .ok () started ∧ RunsForever started := by
  refine ⟨by decide, _, rfl, RunsForever.of_cycle (k := 1) ?_⟩
  exact .cons nofun rfl (.single nofun rfl)

end Machine

end ScopeMachine
