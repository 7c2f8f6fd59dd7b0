import ScopeMachine.Proofs.Run

/-! # Machines that have more

A machine with further functions and globals behind its own, and with room for more frames, goes on where the
smaller one reports that it lacks something (`Machine.Lacks`), and does the same everywhere else. Every index
that the smaller machine knows means the same in the larger one, and nothing but the bounds of the tables and
of the depth is ever compared with an index. `Repeats` says this of a single action: first of an instruction,
then of a step (`Machine.step_carrying`), and so of whole runs.
-/

namespace ScopeMachine

/-- An action has the same outcome on something larger, unless it fails because the smaller lacks something. -/
inductive Repeats {σ : Type} (lacks : Error → Prop) (enlarge : σ → σ) :
    EStateM.Result Error σ Unit → EStateM.Result Error σ Unit → Prop
  | ok (s : σ) : Repeats lacks enlarge (.ok () s) (.ok () (enlarge s))
  | error (e : Error) (s : σ) : Repeats lacks enlarge (.error e s) (.error e (enlarge s))
  | lacks {e : Error} {s : σ} {result : EStateM.Result Error σ Unit} (wanting : lacks e) :
      Repeats lacks enlarge (.error e s) result

namespace Repeats

variable {σ : Type} {lacks : Error → Prop} {enlarge : σ → σ}

theorem refl (same : ∀ s, enlarge s = s) (result : EStateM.Result Error σ Unit) :
    Repeats lacks enlarge result result := by
  cases result with
  | ok _ s =>
    have repeats : Repeats lacks enlarge (.ok () s) (.ok () (enlarge s)) := .ok s
    rwa [same] at repeats
  | error e s =>
    have repeats : Repeats lacks enlarge (.error e s) (.error e (enlarge s)) := .error e s
    rwa [same] at repeats

end Repeats

/-- The operands with further globals behind their own. -/
def Operands.followedBy (extra : List Value) (o : Operands) : Operands :=
  { o with globals := o.globals ++ extra }

/-- The workspace with further globals behind its own. -/
def Workspace.followedBy (extra : List Value) (w : Workspace) : Workspace :=
  { w with globals := w.globals ++ extra }

namespace Instruction

variable {lacks : Error → Prop} {extra : List Value}

/-- An instruction computes the same with further globals behind, unless it asks for one of them. -/
theorem compute_followedBy (wanting : extra ≠ [] → ∀ index, lacks (.unknownGlobal index)) (i : Instruction)
    (o : Operands) :
    Repeats lacks (Operands.followedBy extra) (i.compute o) (i.compute (o.followedBy extra)) := by
  by_cases none : extra = []
  · have same (o : Operands) : o.followedBy extra = o := by rw [none, Operands.followedBy, List.append_nil]
    rw [same]
    exact .refl same _
  have wanting := wanting none
  have stack : (o.followedBy extra).stack = o.stack := rfl
  cases i with
  | globalGet index =>
    rcases Nat.lt_or_ge index.toNat o.globals.length with known | unknown
    · have found : (o.followedBy extra).globals[index.toNat]? = o.globals[index.toNat]? :=
        List.getElem?_append_left known
      simp only [compute, found, List.getElem?_eq_getElem known]
      exact .ok _
    · simp only [compute, List.getElem?_eq_none unknown]
      exact .lacks (wanting index)
  | globalSet index =>
    by_cases known : index.toNat < o.globals.length
    · have further : index.toNat < (o.followedBy extra).globals.length :=
        List.length_append ▸ Nat.lt_add_right _ known
      have written (v : Value) : (o.followedBy extra).globals.set index.toNat v =
          o.globals.set index.toNat v ++ extra := List.set_append_left _ _ known
      simp only [compute, known, further, ↓reduceIte, stack]
      cases o.stack.topFirst with
      | nil => exact .error _ _
      | cons v below =>
        dsimp only
        rw [written]
        exact .ok { o with stack := ⟨below⟩, globals := o.globals.set index.toNat v }
    · simp only [compute, known, ↓reduceIte]
      exact .lacks (wanting index)
  | localGet index =>
    have locals : (o.followedBy extra).locals = o.locals := rfl
    simp only [compute, locals]
    cases o.locals[index.toNat]? with
    | none => exact .error _ _
    | some v => exact .ok _
  | localSet index | localTee index =>
    have locals : (o.followedBy extra).locals = o.locals := rfl
    simp only [compute, locals, stack]
    split
    · cases o.stack.topFirst with
      | nil => exact .error _ _
      | cons v below => exact .ok _
    · exact .error _ _
  | drop =>
    simp only [compute, stack]
    cases o.stack.topFirst with
    | nil => exact .error _ _
    | cons v below => exact .ok _
  | binary op =>
    simp only [compute, stack]
    rcases o.stack.topFirst with _ | ⟨right, _ | ⟨left, below⟩⟩
    · exact .error _ _
    · exact .error _ _
    · dsimp only
      cases op.eval? left right with
      | none => exact .error _ _
      | some v => exact .ok _
  | nop | const | enter | otherwise | close | br | brIf | call => exact .ok _

/-- An instruction other than a call does the same with further globals behind, unless it asks for one of
them. -/
theorem effect_followedBy (wanting : extra ≠ [] → ∀ index, lacks (.unknownGlobal index)) (pc : Nat)
    (i : Instruction) (w : Workspace) :
    Repeats lacks (Workspace.followedBy extra) (i.effect pc w) (i.effect pc (w.followedBy extra)) := by
  have frame : (w.followedBy extra).frame = w.frame := rfl
  by_cases plain : i.isPlain = true
  · have computed := compute_followedBy wanting i w.operands
    have operands : (w.followedBy extra).operands = w.operands.followedBy extra := rfl
    rw [effect_of_isPlain plain, effect_of_isPlain plain, operands]
    generalize i.compute w.operands = own, i.compute (w.operands.followedBy extra) = other at computed
    cases computed with
    | ok o => exact .ok (w.withOperands o)
    | error e o => exact .error e (w.withOperands o)
    | lacks wanting => exact .lacks wanting
  · have branch (label : UInt32) (w : Workspace) : Repeats lacks (Workspace.followedBy extra)
        ((br label).effect pc w) ((br label).effect pc (w.followedBy extra)) := by
      have frame : (w.followedBy extra).frame = w.frame := rfl
      rw [effect_br, effect_br, frame]
      cases w.frame.branch label with
      | ok f => exact .ok { w with frame := f }
      | error e => exact .error e w
    cases i with
    | enter kind type =>
      cases kind with
      | block => exact .ok { w with frame := w.frame.enter type (w.frame.function.afterEnd pc) }
      | loop => exact .ok { w with frame := w.frame.enter type pc }
      | cond =>
        rw [effect_cond, effect_cond, frame]
        cases w.frame.stack.topFirst with
        | nil => exact .error _ w
        | cons v below => exact .ok _
    | otherwise => exact .ok { w with frame := w.frame.exit }
    | close => exact .ok { w with frame := w.frame.leave.2 }
    | call index => exact .ok w
    | br label => exact branch label w
    | brIf label =>
      rw [effect_brIf, effect_brIf, frame]
      cases w.frame.stack.topFirst with
      | nil => exact .error _ w
      | cons v below =>
        dsimp only
        split
        · exact branch label { w with frame := w.frame.withStack ⟨below⟩ }
        · exact .ok { w with frame := w.frame.withStack ⟨below⟩ }
    | _ => exact (plain rfl).elim

end Instruction

namespace Machine

/-- The machine as it runs what another one runs, with further globals behind those of the other. -/
def carrying (m : Machine) (extra : List Value) (guest : Machine) : Machine :=
  { m with globals := guest.globals ++ extra, frames := guest.frames, results := guest.results }

/-- The machine has the functions and the room of another one, and may have more of both. -/
structure Covers (m guest : Machine) : Prop where
  functions : guest.functions <+: m.functions
  maxDepth : guest.maxDepth ≤ m.maxDepth

/-- The errors of a machine that has less than another one which are owed to that: it may not know a function
or a global that the other knows, or may have no room for a frame for which the other has. -/
inductive Lacks (m : Machine) (extra : List Value) (guest : Machine) : Error → Prop
  | function (more : guest.functions ≠ m.functions) (index : UInt32) : Lacks m extra guest (.unknownFunction index)
  | global (more : extra ≠ []) (index : UInt32) : Lacks m extra guest (.unknownGlobal index)
  | room (more : guest.maxDepth ≠ m.maxDepth) : Lacks m extra guest .callDepthExhausted

variable {m guest guest' : Machine} {extra : List Value} {active : Frame} {callers : List Frame}

theorem Covers.sameSetup (covers : m.Covers guest) (same : guest.SameSetup guest') : m.Covers guest' :=
  ⟨same.functions ▸ covers.functions, same.maxDepth ▸ covers.maxDepth⟩

theorem Lacks.of_sameSetup {e : Error} (same : guest.SameSetup guest') (lacks : Lacks m extra guest' e) :
    Lacks m extra guest e := by
  cases lacks with
  | function more index => exact .function (same.functions ▸ more) index
  | global more index => exact .global more index
  | room more => exact .room (same.maxDepth ▸ more)

/-- A function that the smaller machine knows is the same in the larger one. -/
theorem Covers.function (covers : m.Covers guest) (index : UInt32) :
    m.function index = guest.function index ∨
      guest.function index = .error (.unknownFunction index) ∧ guest.functions ≠ m.functions := by
  obtain ⟨more, whole⟩ := covers.functions
  unfold Machine.function
  rcases Nat.lt_or_ge index.toNat guest.functions.length with known | unknown
  · rw [← whole, List.getElem?_append_left known]
    exact .inl rfl
  · by_cases same : guest.functions = m.functions
    · rw [same]
      exact .inl rfl
    · rw [List.getElem?_eq_none unknown]
      exact .inr ⟨rfl, same⟩

theorem retire_carrying (m : Machine) (extra : List Value) (guest : Machine) :
    (m.carrying extra guest).retire = m.carrying extra guest.retire := by
  obtain ⟨functions, globals, exports, frames, results, maxDepth⟩ := guest
  rcases frames with _ | ⟨active, _ | ⟨caller, callers⟩⟩ <;> rfl

theorem retireFinished_carrying (m : Machine) (extra : List Value) (guest : Machine) :
    (m.carrying extra guest).retireFinished = m.carrying extra guest.retireFinished := by
  have frames : (m.carrying extra guest).frames = guest.frames := rfl
  unfold retireFinished
  rw [frames, retire_carrying]
  cases guest.frames with
  | nil => rfl
  | cons active callers =>
    dsimp only
    split <;> rfl

private theorem repeats_retireFinished {lacks : Error → Prop} (m : Machine) (extra : List Value) (guest : Machine) :
    Repeats lacks (m.carrying extra) (.ok () guest.retireFinished)
      (.ok () (m.carrying extra guest).retireFinished) := by
  rw [retireFinished_carrying]
  exact .ok guest.retireFinished

/-- A call from a frame does the same, unless the function or the room for it is lacking. -/
theorem call_carrying (extra : List Value) (covers : m.Covers guest)
    (frames : guest.frames = active :: callers) (index : UInt32) :
    Repeats (Lacks m extra guest) (m.carrying extra) (call index guest) (call index (m.carrying extra guest)) := by
  have host : (m.carrying extra guest).frames = active :: callers := frames
  have known : (m.carrying extra guest).function index = m.function index := rfl
  rw [call_of_frames host, call_of_frames frames, known]
  rcases covers.function index with same | ⟨unknown, more⟩
  · rw [same]
    cases guest.function index with
    | error e => exact .error e guest
    | ok f =>
      have height : (m.carrying extra guest).frames.length = guest.frames.length := rfl
      have limit : (m.carrying extra guest).maxDepth = m.maxDepth := rfl
      dsimp only
      rw [height, limit]
      by_cases full : guest.maxDepth ≤ guest.frames.length
      · rw [if_pos full]
        by_cases same : guest.maxDepth = m.maxDepth
        · rw [if_pos (same ▸ full)]
          exact .error _ guest
        · exact .lacks (.room same)
      · have room : ¬ m.maxDepth ≤ guest.frames.length := fun full' => full (Nat.le_trans covers.maxDepth full')
        rw [if_neg full, if_neg room]
        cases active.popN f.params.length with
        | error e => exact .error e guest
        | ok popped =>
          dsimp only
          cases (Frame.ofFunction f).bindArgs popped.1 with
          | error e => exact .error e { guest with frames := popped.2 :: callers }
          | ok frame => exact .ok { guest with frames := frame :: popped.2 :: callers }
  · rw [unknown]
    exact .lacks (.function more index)

private theorem step_carrying_of_call (extra : List Value) (covers : m.Covers guest)
    (frames : guest.frames = active :: callers) {index : UInt32}
    (next : active.instruction? = some (.call index)) :
    Repeats (Lacks m extra guest) (m.carrying extra) (step guest) (step (m.carrying extra guest)) := by
  have host : (m.carrying extra guest).frames = active :: callers := frames
  have same : guest.SameSetup { guest with frames := active.goto (active.pc + 1) :: callers } := ⟨rfl, rfl, rfl⟩
  have called := call_carrying extra (covers.sameSetup same) rfl index
  have passed : { m.carrying extra guest with frames := active.goto (active.pc + 1) :: callers } =
      m.carrying extra { guest with frames := active.goto (active.pc + 1) :: callers } := rfl
  rw [step_of_call host next, step_of_call frames next, passed]
  generalize call index _ = own, call index (m.carrying extra _) = other at called
  cases called with
  | ok opened => exact repeats_retireFinished m extra opened
  | error e refused => exact .error e refused
  | lacks wanting => exact .lacks (wanting.of_sameSetup same)

private theorem step_carrying_of_effect (m : Machine) (extra : List Value)
    (frames : guest.frames = active :: callers) {i : Instruction} (next : active.instruction? = some i)
    (notCall : ∀ index, i ≠ .call index) :
    Repeats (Lacks m extra guest) (m.carrying extra) (step guest) (step (m.carrying extra guest)) := by
  have host : (m.carrying extra guest).frames = active :: callers := frames
  have wanting : extra ≠ [] → ∀ index, Lacks m extra guest (.unknownGlobal index) := .global
  have acted := Instruction.effect_followedBy wanting active.pc i
    { frame := active.goto (active.pc + 1), globals := guest.globals }
  have behind : Workspace.followedBy extra { frame := active.goto (active.pc + 1), globals := guest.globals } =
      { frame := active.goto (active.pc + 1), globals := (m.carrying extra guest).globals } := rfl
  rw [step_of_effect host next notCall, step_of_effect frames next notCall, ← behind]
  generalize i.effect active.pc _ = own, i.effect active.pc (Workspace.followedBy extra _) = other at acted
  cases acted with
  | ok w => exact repeats_retireFinished m extra { guest with frames := w.frame :: callers, globals := w.globals }
  | error e w => exact .error e { guest with frames := w.frame :: callers, globals := w.globals }
  | lacks wanting => exact .lacks wanting

/-- A step does the same, unless the smaller machine lacks what it needs. -/
theorem step_carrying (extra : List Value) (covers : m.Covers guest) :
    Repeats (Lacks m extra guest) (m.carrying extra) (step guest) (step (m.carrying extra guest)) := by
  cases frames : guest.frames with
  | nil =>
    have host : (m.carrying extra guest).frames = [] := frames
    rw [step_of_idle frames, step_of_idle host]
    exact .ok guest
  | cons active callers =>
    have host : (m.carrying extra guest).frames = active :: callers := frames
    cases next : active.instruction? with
    | none =>
      rw [step_of_done host next, step_of_done frames next, retire_carrying]
      exact .ok guest.retire
    | some i =>
      by_cases isCall : ∃ index, i = .call index
      · obtain ⟨index, rfl⟩ := isCall
        exact step_carrying_of_call extra covers frames next
      · exact step_carrying_of_effect m extra frames next fun index same => isCall ⟨index, same⟩

theorem Steps.carrying {n : Nat} (steps : Steps n guest guest') (covers : m.Covers guest) (extra : List Value) :
    Steps n (m.carrying extra guest) (m.carrying extra guest') := by
  induction steps with
  | refl => exact .refl _
  | cons busy head _ ih =>
    have followed := step_carrying extra covers
    have same := SameSetup.advances (step_eq_ok_iff.mp head)
    rw [head] at followed
    generalize host : step (m.carrying extra _) = result at followed
    cases followed
    exact .cons busy host (ih (covers.sameSetup same))

theorem Finishes.carrying {n : Nat} (finishes : Finishes n guest guest') (covers : m.Covers guest)
    (extra : List Value) : Finishes n (m.carrying extra guest) (m.carrying extra guest') :=
  ⟨finishes.1.carrying covers extra, finishes.2⟩

theorem Traps.carrying {n : Nat} {e : Error} (traps : Traps n guest e guest') (covers : m.Covers guest)
    (enough : ¬ Lacks m extra guest e) : Traps n (m.carrying extra guest) e (m.carrying extra guest') := by
  obtain ⟨last, steps, failed⟩ := traps
  have followed := step_carrying extra (covers.sameSetup steps.sameSetup)
  rw [failed] at followed
  generalize host : step (m.carrying extra last) = result at followed
  cases followed with
  | error => exact ⟨_, steps.carrying covers extra, host⟩
  | lacks wanting => exact (enough (wanting.of_sameSetup steps.sameSetup)).elim

theorem RunsForever.carrying (endless : RunsForever guest) (covers : m.Covers guest) (extra : List Value) :
    RunsForever (m.carrying extra guest) := by
  intro n
  obtain ⟨guest', steps, busy⟩ := endless n
  exact ⟨_, steps.carrying covers extra, busy⟩

/-- Machines that have more functions and globals, behind those of a smaller one, and more room for frames make
the same runs of the functions that the smaller one knows. They refuse a start for the same cause. A run that
has been started finishes on both after the same number of steps, with the same results and the same globals
and with the further globals as they were before, or it goes on forever on both, or it traps on both in the
same way, unless the smaller machine trapped for want of a function, a global or a frame. -/
theorem runs_of_more {small large : Machine} {extra : List Value} {index : UInt32} {args : List Value}
    (idle : small.frames = []) (idle' : large.frames = []) (functions : small.functions <+: large.functions)
    (globals : small.globals ++ extra = large.globals) (maxDepth : small.maxDepth ≤ large.maxDepth)
    (known : index.toNat < small.functions.length) :
    (∀ e, start index args small = .error e small → start index args large = .error e large) ∧
    ∀ started, start index args small = .ok () started →
      start index args large = .ok () (large.carrying extra started) ∧
      (∀ k finished, Finishes k started finished →
        Finishes k (large.carrying extra started) (large.carrying extra finished)) ∧
      (∀ k e trapped, Traps k started e trapped → (∀ index, e ≠ .unknownFunction index) →
        (∀ index, e ≠ .unknownGlobal index) → e ≠ .callDepthExhausted →
        Traps k (large.carrying extra started) e (large.carrying extra trapped)) ∧
      (RunsForever started → RunsForever (large.carrying extra started)) := by
  have covers : large.Covers small := ⟨functions, maxDepth⟩
  have found' {f : Function} (found : small.functions[index.toNat]? = some f) :
      large.functions[index.toNat]? = some f := by
    obtain ⟨bound, rfl⟩ := List.getElem?_eq_some_iff.mp found
    exact List.prefix_iff_getElem?.mp functions _ bound
  constructor
  · intro e refused
    obtain ⟨refuses, -⟩ := start_eq_error_iff.mp refused
    cases refuses with
    | busy busy => exact (busy idle).elim
    | unknownFunction _ unknown => exact absurd known (Nat.not_lt.mpr unknown)
    | argumentCount _ found count => exact start_of_refuses (.argumentCount idle' (found' found) count)
  · intro started starts
    obtain ⟨-, f, found, count, rfl⟩ := start_eq_ok_iff.mp starts
    have carried : large.carrying extra { small with frames := [.entering f args], results := [] } =
        { large with frames := [.entering f args], results := [] } := by
      rw [carrying, globals]
    have covers : large.Covers { small with frames := [.entering f args], results := [] } := ⟨functions, maxDepth⟩
    refine ⟨?_, ?_, ?_, ?_⟩
    · rw [carried]
      exact start_eq_ok_iff.mpr ⟨idle', f, found' found, count, rfl⟩
    · intro k finished finishes
      exact finishes.carrying covers extra
    · intro k e trapped traps function global room
      refine traps.carrying covers ?_
      rintro (⟨-, index⟩ | ⟨-, index⟩ | -)
      · exact function index rfl
      · exact global index rfl
      · exact room rfl
    · intro endless
      exact endless.carrying covers extra

/-- A machine with a function that calls another one, which counts in a global. -/
def counting : Machine :=
  { functions := [{ body := #[.call 1] }, { body := #[.globalGet 0, .const 1, .binary .add, .globalSet 0] }]
    globals := [4]
    maxDepth := 2 }

theorem runs_of_more_counting : counting.frames = [] ∧
    ∃ large started finished, large.frames = [] ∧ counting.functions <+: large.functions ∧
      counting.globals ++ [9] = large.globals ∧ counting.maxDepth ≤ large.maxDepth ∧
      start 0 [] counting = .ok () started ∧ Finishes 6 started finished ∧ finished.globals = [5] ∧
      start 0 [] large = .ok () (large.carrying [9] started) ∧
      Finishes 6 (large.carrying [9] started) (large.carrying [9] finished) ∧
      (large.carrying [9] finished).globals = [5, 9] := by
  have started : ∃ started, start 0 [] counting = .ok () started ∧
      ∃ finished, Finishes 6 started finished ∧ finished.globals = [5] :=
    ⟨_, rfl, _, ⟨.cons nofun rfl (.cons nofun rfl (.cons nofun rfl (.cons nofun rfl (.cons nofun rfl
      (.cons nofun rfl (.refl _)))))), rfl⟩, rfl⟩
  obtain ⟨started, starts, finished, finishes, globals⟩ := started
  have larger : counting.functions <+: counting.functions ++ [{ body := #[.globalGet 1] }] := List.prefix_append _ _
  have behind : counting.globals ++ [9] = [4, 9] := rfl
  obtain ⟨-, runs⟩ := @runs_of_more counting
    { functions := counting.functions ++ [{ body := #[.globalGet 1] }], globals := [4, 9], maxDepth := 3 } [9] 0 []
    rfl rfl larger behind (by decide) (by decide)
  obtain ⟨starts', finishes', -⟩ := runs started starts
  refine ⟨rfl, _, started, finished, rfl, larger, behind, by decide, starts, finishes, globals, starts',
    finishes' 6 finished finishes, ?_⟩
  rw [carrying, globals]
  rfl

end Machine

end ScopeMachine
