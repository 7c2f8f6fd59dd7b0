import ScopeMachine.CommandLine
import ScopeMachine.Proofs.CallDepth
import ScopeMachine.Proofs.Document.Loading
import ScopeMachine.Proofs.LoopFree
import ScopeMachine.Proofs.Tool.Session

/-! # Traced runs

A traced run accounts for every step on the error output, with a line that is indented by the calls and scopes that
the step is in. Where that line can be laid out, tracing makes no difference to how a run ends and what it writes to
the output, and neither does any other account (`Tool.alike_run`). Where it cannot, the run is aborted
(`Tool.report_of_not_traceable`). That takes more scopes in scopes than any function has whose scopes are nested in a
usual way (`Tool.traceable_of_nestingDepth`).
-/

namespace ScopeMachine

namespace Tool

open Session Machine

/-- The line that accounts for the next step can be laid out. -/
def Legible (m : Machine) : Prop := ∀ frame, m.active? = some frame → traceWidth m frame ≤ Text.largestWidth

/-- The line for every step can be laid out, up to a number of steps. -/
def LegibleFor (n : Nat) (m : Machine) : Prop := ∀ k m', k < n → Steps k m m' → Legible m'

/-- The machine that a run begins with: that of the program, with the function started. -/
inductive Begins (options : RunOptions) : Except Unreadable String → Machine → Prop
  | intro {text : String} {d : Document} {m started : Machine} {index : UInt32} {args : List Value}
      (runs : options.listExports = false) (parsed : Document.parse text = .ok d) (loaded : d.instantiate = .ok m)
      (exported : m.functionIndex? (options.invoke.getD "main") = some index)
      (read : List.Forall₂ (fun arg v => parseArgument arg = .ok v) options.args args)
      (starts : start index args m = .ok () started) : Begins options (.ok text) started

/-- The line for every step of a run can be laid out, up to the limit. -/
def Traceable (options : RunOptions) (content : Except Unreadable String) : Prop :=
  ∀ started, Begins options content started → LegibleFor (options.maxSteps.getD largestLimit) started

section Steps
variable {m m' : Machine} {trace trace' : Bool} {k n limit remaining : Nat} {t : Transcript}

theorem LegibleFor.head (legible : LegibleFor (n + 1) m) : Legible m := legible 0 m (Nat.succ_pos n) (.refl m)

theorem LegibleFor.tail (legible : LegibleFor (n + 1) m) (busy : m.frames ≠ []) (head : step m = .ok () m') :
    LegibleFor n m' := fun k m'' few steps => legible (k + 1) m'' (Nat.succ_lt_succ few) (.cons busy head steps)

theorem noteStep_false (m : Machine) : noteStep false m = pure () := by
  unfold noteStep
  cases m.active? <;> rfl

theorem traceLine?_eq_none_iff {frame : Frame} :
    traceLine? m frame = none ↔ Text.largestWidth < traceWidth m frame := by
  simp [traceLine?, Text.indent?]

/-- A line that can be laid out is noted if that is wanted. -/
theorem exists_noteStep_eq {frame : Frame} (active : m.active? = some frame) (legible : Legible m) :
    ∃ line, ∀ trace, noteStep trace m = noteIf trace line := by
  cases written : traceLine? m frame with
  | none => exact absurd (traceLine?_eq_none_iff.mp written) (Nat.not_lt.mpr (legible frame active))
  | some line =>
    refine ⟨line, fun trace => ?_⟩
    simp only [noteStep, active, written]
    cases trace <;> rfl

/-- The next step can be accounted for or not, if the line can be laid out. -/
theorem alike_noteStep (m : Machine) (same : trace = trace' ∨ Legible m) :
    Alike (noteStep trace m) (noteStep trace' m) := by
  cases active : m.active? with
  | none =>
    simp only [noteStep, active]
    exact .pure ()
  | some frame =>
    rcases same with rfl | legible
    · simp only [noteStep, active]
      cases trace with
      | true => exact .bind (.orAbort _) fun line => .noteIf true true line line
      | false => exact .pure ()
    · obtain ⟨line, same⟩ := exists_noteStep_eq active legible
      rw [same, same]
      exact .noteIf _ _ line line

theorem noteStep_of_legible (legible : Legible m) (t : Transcript) :
    ∃ err, noteStep true m t = .ok () { t with err } := by
  cases active : m.active? with
  | none =>
    simp only [noteStep, active]
    exact ⟨t.err, rfl⟩
  | some frame =>
    obtain ⟨line, same⟩ := exists_noteStep_eq active legible
    rw [same]
    exact ⟨t.err.push line, rfl⟩

theorem noteStep_of_not_legible (illegible : ¬Legible m) : noteStep true m = throw .aborted := by
  unfold Legible at illegible
  push Not at illegible
  obtain ⟨frame, active, wide⟩ := illegible
  unfold noteStep
  rw [active]
  change (orAbort (traceLine? m frame) >>= note) = _
  rw [traceLine?_eq_none_iff.mpr wide]
  rfl

theorem alike_stepAll (limit : Nat) (m : Machine) (same : trace = trace' ∨ LegibleFor remaining m) :
    Alike (stepAll trace limit remaining m) (stepAll trace' limit remaining m) := by
  induction remaining generalizing m with
  | zero =>
    unfold stepAll
    split
    · exact .pure _
    · exact .giveUp _
  | succ left ih =>
    unfold stepAll
    split
    · exact .pure _
    · rename_i busy
      refine .bind (alike_noteStep m (same.imp_right LegibleFor.head)) fun _ => ?_
      cases head : step m with
      | ok _ m' => exact ih m' (same.imp_right fun legible => legible.tail (mt idle_iff.mpr busy) head)
      | error e m => exact .giveUp _

/-- A run that comes to a step for which the line cannot be laid out is aborted there. -/
theorem stepAll_aborts (steps : Steps k m m') (few : k < remaining) (illegible : ¬Legible m') :
    seen (stepAll true limit remaining m t) = (.error .aborted, t.out) := by
  induction steps generalizing remaining t with
  | refl m =>
    obtain ⟨left, rfl⟩ := Nat.exists_eq_succ_of_ne_zero (Nat.ne_zero_of_lt few)
    have busy : ¬m.idle = true := by
      intro idle
      refine illegible fun frame active => ?_
      rw [active?, idle_iff.mp idle] at active
      cases active
    rw [stepAll, if_neg busy, noteStep_of_not_legible illegible]
    rfl
  | @cons k m mid m' busy head rest ih =>
    cases remaining with
    | zero => exact absurd few (Nat.not_lt_zero _)
    | succ left =>
      rw [stepAll, if_neg (mt idle_iff.mp busy), head]
      by_cases legible : Legible m
      · obtain ⟨err, noted⟩ := noteStep_of_legible legible t
        simp only [bind, EStateM.bind, noted]
        exact ih (Nat.lt_of_succ_lt_succ few) illegible
      · rw [noteStep_of_not_legible legible]
        rfl

end Steps

section Runs
variable {options : RunOptions} {content : Except Unreadable String} {trace debug : Bool}

theorem alike_startRun (options : RunOptions) (trace debug : Bool) (name : String) (m : Machine) :
    Alike (startRun options name m) (startRun { options with trace, debug } name m) := by
  unfold startRun
  cases m.functionIndex? name with
  | none => exact .giveUp _
  | some index =>
    refine .bind (.mapM (fun arg => ?_) _) fun args => ?_
    · cases parseArgument arg with
      | ok v => exact .pure v
      | error message => exact .giveUp _
    · refine .giveUpIf _ (.bind (.noteIf _ _ _ _) fun _ => ?_)
      cases start index args m with
      | ok _ m => exact .pure m
      | error e m => exact .giveUp _

theorem startRun_eq_ok {name : String} {m started : Machine} {t u : Transcript}
    (done : startRun options name m t = .ok started u) :
    ∃ index args, m.functionIndex? name = some index ∧
      List.Forall₂ (fun arg v => parseArgument arg = .ok v) options.args args ∧
      start index args m = .ok () started := by
  unfold startRun at done
  cases exported : m.functionIndex? name with
  | none =>
    rw [exported] at done
    cases done
  | some index =>
    rw [exported] at done
    obtain ⟨args, _, read, rest⟩ := bind_eq_ok done
    refine ⟨index, args, rfl, (mapM_eq_ok read).imp ?_, ?_⟩
    · rintro arg v ⟨_, _, parsed⟩
      cases given : parseArgument arg with
      | ok w =>
        rw [given] at parsed
        cases parsed
        rfl
      | error message =>
        rw [given] at parsed
        cases parsed
    · dsimp only at rest
      split at rest
      · cases rest
      · obtain ⟨_, _, -, final⟩ := bind_eq_ok rest
        cases starts : start index args m with
        | ok _ m' =>
          rw [starts] at final
          cases final
          rfl
        | error e m' =>
          rw [starts] at final
          cases final

theorem alike_sayResults (options : RunOptions) (trace debug : Bool) (results : List Value) :
    Alike (sayResults options results) (sayResults { options with trace, debug } results) := by
  unfold sayResults
  split
  · exact .noteIf _ _ _ _
  · exact .bind (.say _) fun _ => .forM (fun _ => .say _) _

theorem alike_runFunction (m : Machine) (debug : Bool)
    (same : options.trace = trace ∨ ∀ started t u, startRun options (options.invoke.getD "main") m t = .ok started u →
      LegibleFor (options.maxSteps.getD largestLimit) started) :
    Alike (runFunction options m) (runFunction { options with trace, debug } m) :=
  .bind (.noteIf _ _ _ _) fun _ => .bind_of_ok (alike_startRun options trace debug _ m) fun begun =>
    .bind (alike_stepAll _ _ (same.imp_right fun legible => legible _ _ _ begun)) fun (m, _) =>
      .bind (.noteIf _ _ _ _) fun _ => alike_sayResults options trace debug m.results

/-- Neither accounting nor tracing makes a difference to how a run ends and to what it writes to the output, where the
line for every step can be laid out. -/
theorem alike_run (path : String) (debug : Bool) (same : options.trace = trace ∨ Traceable options content) :
    Alike (run path options content) (run path { options with trace, debug } content) := by
  refine .bind (.noteIf _ _ _ _) fun _ => .bind_of_ok (.loadProgram path content) fun loaded =>
    .bind (.noteIf _ _ _ _) fun _ => ?_
  obtain ⟨text, d, rfl, parsed, instantiated⟩ := loadProgram_eq_ok loaded
  dsimp only
  split
  · exact .bind (.say _) fun _ => .forM .say _
  · rename_i lists
    refine alike_runFunction _ debug (same.imp_right fun traceable started t u begun => ?_)
    obtain ⟨index, args, exported, read, starts⟩ := startRun_eq_ok begun
    exact traceable started (.intro (Bool.eq_false_iff.mpr lists) parsed instantiated exported read starts)

/-- With arguments that can be read and that are as many as the function has parameters, a function is started. -/
theorem startRun_ok {name : String} {m started : Machine} {index : UInt32} {args : List Value} {t : Transcript}
    (quiet : options.debug = false) (exported : m.functionIndex? name = some index)
    (read : List.Forall₂ (fun arg v => parseArgument arg = .ok v) options.args args)
    (starts : start index args m = .ok () started) : startRun options name m t = .ok started t := by
  obtain ⟨-, f, known, count, -⟩ := start_eq_ok_iff.mp starts
  have fits : args.length = (m.functions[index.toNat]?.getD default).params.length := by rw [known]; exact count
  have arguments (work : String → Session Value) (reads : ∀ arg v, parseArgument arg = .ok v → work arg = pure v) :
      options.args.mapM work t = .ok args t := mapM_pure (read.imp reads) t
  simp only [startRun, exported, bind, EStateM.bind]
  rw [arguments _ fun arg v parsed => by rw [parsed]]
  simp only [fits, ne_eq, not_true_eq_false, ↓reduceIte, quiet, starts]
  rfl

/-- Without other accounts a run does nothing but start the function, step and list the results. -/
theorem run_quiet (path : String) {started : Machine} (quiet : options.debug = false)
    (begins : Begins options content started) (t : Transcript) :
    run path options content t =
      (stepAll options.trace (options.maxSteps.getD largestLimit) (options.maxSteps.getD largestLimit) started >>=
        fun (m, _) => sayResults options m.results) t := by
  cases begins with
  | intro runs parsed loaded exported read starts =>
    have begun (t : Transcript) : startRun options (options.invoke.getD "main") _ t = .ok started t :=
      startRun_ok quiet exported read starts
    have noNote (line : String) : noteIf options.debug line = pure () := by rw [quiet]; rfl
    simp only [run, runFunction, runs, noNote, pure_bind, Bool.false_eq_true, ↓reduceIte]
    simp only [bind, EStateM.bind, loadProgram_ok parsed loaded, begun]

/-- The same options, with no other accounts than those of the steps. -/
def RunOptions.quiet (options : RunOptions) : RunOptions := { options with debug := false }

/-- A traced run is aborted if the line for one of its steps cannot be laid out. -/
theorem report_of_not_traceable (path : String) (traced : options.trace = true)
    (illegible : ¬Traceable options content) :
    (Command.report content (.run path options)).code = abortStatus ∧
      (Command.report content (.run path options)).out = "" := by
  unfold Traceable LegibleFor at illegible
  push Not at illegible
  obtain ⟨started, begins, k, m, few, steps, illegible⟩ := illegible
  have begins : Begins options.quiet content started := by
    cases begins with
    | intro runs parsed loaded exported read starts => exact .intro runs parsed loaded exported read starts
  let limit := options.maxSteps.getD largestLimit
  have aborts : seen (stepAll true limit limit started {}) = (.error .aborted, #[]) :=
    stepAll_aborts steps few illegible
  have same : seen ((run path options content).run {}) = seen ((run path options.quiet content).run {}) :=
    alike_run path false (.inl rfl) {} {} rfl
  have ended : seen ((run path options content).run {}) = (.error .aborted, #[]) := by
    rw [same, EStateM.run, run_quiet path rfl begins]
    have traced : options.quiet.trace = true := traced
    rw [traced]
    exact seen_bind_of_error aborts
  exact report_of_aborted ended

/-- A frame that is indented by more than the scopes that its function nests and the calls that there may be does not
exist. -/
theorem traceable_of_nestingDepth {text : String} {d : Document} {m : Machine} (parsed : Document.parse text = .ok d)
    (loaded : d.instantiate = .ok m)
    (shallow : ∀ f ∈ m.functions, (m.maxDepth - 1 + f.nestingDepth) * 2 ≤ Text.largestWidth) :
    Traceable options (.ok text) := by
  intro started begins k m' _ steps frame active
  cases begins with
  | @intro _ d' m₀ _ index args runs parsed' loaded' exported read starts =>
    obtain rfl : d = d' := Except.ok.inj (parsed.symm.trans parsed')
    obtain rfl : m = m₀ := Except.ok.inj (loaded.symm.trans loaded')
    have member : frame ∈ m'.frames := List.mem_of_head? active
    obtain ⟨known, tracks⟩ := known_tracks_of_start starts steps frame member
    have scopes : frame.inner.length ≤ frame.function.nestingDepth := frame.length_shapes ▸ tracks.length_le
    have idle : m.Limited m.maxDepth (max m.maxDepth 1) := by
      refine ⟨rfl, ?_⟩
      rw [(Document.ready_of_instantiate loaded).idle]
      exact Nat.zero_le _
    have calls := ((idle.starts (Nat.lt_of_lt_of_le Nat.zero_lt_one (Nat.le_max_right ..)) starts).steps
      (Nat.le_max_left ..) steps).frames
    have enough := shallow _ known
    unfold traceWidth Frame.depth
    dsimp only
    split <;> omega

end Runs

end Tool

end ScopeMachine
