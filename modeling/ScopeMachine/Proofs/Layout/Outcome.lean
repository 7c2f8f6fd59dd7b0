import ScopeMachine.Proofs.Answer
import ScopeMachine.Proofs.Layout.Simulation

/-! # Runs of another layout

A machine that shadows another one ends with the same answer, or goes on forever if the other one does.
It may only take more steps. As it cannot do both, what it does tells what the other one does, and any
invocations have the same answers on both of them.
-/

namespace ScopeMachine.Machine

variable {m m' : Machine}

/-- Steps are shadowed by at least as many steps. -/
theorem Steps.shadows {k : Nat} {n : Machine} (steps : Steps k m n) (shadows : m.Shadows m')
    (tracks : ∀ f ∈ m.frames, f.function.Tracks f.shapes f.pc) :
    ∃ j n', k ≤ j ∧ Steps j m' n' ∧ n.Shadows n' ∧ ∀ f ∈ n.frames, f.function.Tracks f.shapes f.pc := by
  induction steps generalizing m' with
  | refl m => exact ⟨0, m', Nat.le_refl 0, .refl m', shadows, tracks⟩
  | @cons k m next n busy head _ ih =>
    have emulated := emulates_step shadows busy tracks
    rw [head] at emulated
    cases emulated with
    | @ok _ next' more first shadows =>
      have tracks := (frameInvariant_tracks m.functions).advances (step_eq_ok_iff.mp head) tracks
      obtain ⟨j, n', enough, rest, shadows, tracks⟩ := ih shadows tracks
      exact ⟨more + 1 + j, n', by omega, first.append rest, shadows, tracks⟩

/-- A run has the same answer on a machine that shadows. -/
theorem Ends.shadows {answer : Answer} (ends : m.Ends answer) (shadows : m.Shadows m')
    (tracks : ∀ f ∈ m.frames, f.function.Tracks f.shapes f.pc) : m'.Ends answer := by
  cases answer with
  | returns values globals =>
    obtain ⟨k, n, ⟨steps, idle⟩, rfl, rfl⟩ := ends
    obtain ⟨j, n', -, steps', same, -⟩ := steps.shadows shadows tracks
    have idle' : n'.frames = [] := List.forall₂_nil_left_iff.mp (idle ▸ same.frames)
    exact ⟨j, n', ⟨steps', idle'⟩, same.results, same.globals⟩
  | traps e globals =>
    obtain ⟨k, n, ⟨last, steps, failed⟩, rfl⟩ := ends
    obtain ⟨j, last', -, steps', same, tracks⟩ := steps.shadows shadows tracks
    have emulated := emulates_step same (busy_of_step_error failed) tracks
    rw [failed] at emulated
    cases emulated with
    | @error _ n' more _ traps globals => exact ⟨j + more, n', .append steps' traps, globals⟩

/-- A run that goes on forever does so on a machine that shadows. -/
theorem RunsForever.shadows (endless : m.RunsForever) (shadows : m.Shadows m')
    (tracks : ∀ f ∈ m.frames, f.function.Tracks f.shapes f.pc) : m'.RunsForever := by
  rcases ends_or_runsForever m' with ⟨answer, ends⟩ | endless'
  · obtain ⟨bound, longest⟩ := ends.bounded
    obtain ⟨n, steps, -⟩ := endless (bound + 1)
    obtain ⟨j, n', enough, steps', -⟩ := steps.shadows shadows tracks
    have := longest j n' steps'
    omega
  · exact endless'

namespace Shadows

variable {answer : Answer} {index : UInt32} {args : List Value}

/-- The machine that shadows has no other answers. -/
theorem ends_iff (shadows : m.Shadows m') (tracks : ∀ f ∈ m.frames, f.function.Tracks f.shapes f.pc) :
    m.Ends answer ↔ m'.Ends answer := by
  refine ⟨fun ends => ends.shadows shadows tracks, ?_⟩
  intro ends'
  rcases ends_or_runsForever m with ⟨other, ends⟩ | endless
  · obtain rfl := ends'.unique (ends.shadows shadows tracks)
    exact ends
  · exact (ends'.not_runsForever (endless.shadows shadows tracks)).elim

/-- A start on an idle machine is refused alike, or it starts layouts of the same code. -/
theorem start_agree (shadows : m.Shadows m') (idle : m.frames = []) (index : UInt32) (args : List Value) :
    Agree (start index args m) (start index args m') := by
  have idle' : m'.frames = [] := List.forall₂_nil_left_iff.mp (idle ▸ shadows.frames)
  have related := rel_getElem? shadows.functions index.toNat
  generalize known : m.functions[index.toNat]? = left at related
  generalize known' : m'.functions[index.toNat]? = right at related
  cases related with
  | none =>
    rw [start_of_refuses (.unknownFunction idle (List.getElem?_eq_none_iff.mp known)),
      start_of_refuses (.unknownFunction idle' (List.getElem?_eq_none_iff.mp known'))]
    exact .error _ shadows.globals
  | @some f g rearranged =>
    obtain ⟨R, layout⟩ := rearranged
    rw [start_of_known idle known, start_of_known idle' known', layout.params]
    split
    · exact .ok { shadows with frames := .cons ⟨R, .entering layout args⟩ .nil, results := rfl }
    · exact .error _ shadows.globals

theorem invoke?_iff (shadows : m.Shadows m') (idle : m.frames = []) :
    (∃ fuel, (invoke? fuel index args m).map Answer.ofResult = some answer) ↔
      ∃ fuel, (invoke? fuel index args m').map Answer.ofResult = some answer := by
  have agree := shadows.start_agree idle index args
  cases starts : start index args m with
  | ok _ started =>
    rw [starts] at agree
    generalize starts' : start index args m' = result at agree
    cases agree with
    | @ok _ started' shadows =>
      rw [exists_invoke?_iff starts, exists_invoke?_iff starts']
      apply shadows.ends_iff
      obtain ⟨-, f, -, -, rfl⟩ := start_eq_ok_iff.mp starts
      intro f member
      obtain rfl := List.mem_singleton.mp member
      exact .entering
  | error e refused =>
    rw [starts] at agree
    generalize starts' : start index args m' = result at agree
    cases agree with
    | @error _ refused' _ globals =>
      simp only [invoke?, starts, starts', Option.map_some, Answer.ofResult, globals]

/-- Invocations one after the other have the same answers on a machine that shadows. -/
theorem invokeAll?_iff (shadows : m.Shadows m') (idle : m.frames = []) (calls : List (UInt32 × List Value))
    (answers : List Answer) :
    (∃ fuel, invokeAll? fuel calls m = some answers) ↔ ∃ fuel, invokeAll? fuel calls m' = some answers := by
  induction calls generalizing m m' answers with
  | nil => exact Iff.rfl
  | cons call calls ih =>
    obtain ⟨index, args⟩ := call
    have reset (globals : List Value) : Shadows { m.reset with globals } { m'.reset with globals } :=
      ⟨shadows.functions, .nil, rfl, rfl, shadows.maxDepth⟩
    have later (globals : List Value) (rest : List Answer) := ih (reset globals) rfl rest
    simp only [exists_invokeAll?_cons_iff, shadows.invoke?_iff idle, later]

end Shadows

end ScopeMachine.Machine
