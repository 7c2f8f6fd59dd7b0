import ScopeMachine.Proofs.Document.Printed
import ScopeMachine.Proofs.Portions
import ScopeMachine.Proofs.Tool.Tracing
import ScopeMachine.Proofs.Tool.Wording

/-! # What a run reports

The run tool steps by itself, with a count of its own. It reports what somebody is told who starts the function and
lets the machine make as many steps at once (`Tool.report_run`): the results, that the limit has been reached, or the
cause of a trap and the number of steps before it. What it accounts for on the way makes no difference to that, unless
a line of a trace is too wide to be laid out: then the tool is aborted (`Tool.run_refused_or_aborted`).
-/

namespace ScopeMachine

namespace Tool

open Session Machine

/-- The same options, with no notes. -/
def RunOptions.silent (options : RunOptions) : RunOptions := { options with trace := false, debug := false }

section Quiet
variable {options : RunOptions} {m m' started : Machine} {t : Transcript} {n k limit remaining : Nat} {e : Error}

theorem stepAll_of_step (busy : m.frames ≠ []) (head : step m = .ok () m') :
    stepAll false limit (remaining + 1) m = stepAll false limit remaining m' := by
  rw [stepAll, if_neg (mt idle_iff.mp busy), noteStep_false, head]
  rfl

theorem stepAll_of_finishes (finishes : Finishes n m m') (enough : n ≤ remaining) :
    stepAll false limit remaining m t = .ok (m', remaining - n) t := by
  obtain ⟨steps, idle⟩ := finishes
  induction steps generalizing remaining with
  | refl m =>
    unfold stepAll
    rw [if_pos (idle_iff.mpr idle)]
    rfl
  | cons busy head _ ih =>
    cases remaining with
    | zero => exact absurd enough (by omega)
    | succ left =>
      rw [stepAll_of_step busy head, ih (by omega) idle, Nat.add_sub_add_right]

theorem stepAll_of_steps (steps : Steps remaining m m') (busy : m'.frames ≠ []) :
    stepAll false limit remaining m t = .error (.gaveUp (limitMessage limit)) t := by
  induction steps with
  | refl m =>
    rw [stepAll, if_neg (mt idle_iff.mp busy)]
    rfl
  | cons active head _ ih => rw [stepAll_of_step active head, ih busy]

/-- The steps before a trap are those that the limit allows for and that are not left. -/
theorem stepAll_of_traps (traps : Traps k m e m') (few : k < remaining) (within : remaining ≤ limit) :
    stepAll false limit remaining m t = .error (.gaveUp (trapMessage e (limit - remaining + k))) t := by
  obtain ⟨last, steps, failed⟩ := traps
  induction steps generalizing remaining with
  | refl m =>
    cases remaining with
    | zero => exact absurd few (by omega)
    | succ left =>
      rw [stepAll, if_neg (mt idle_iff.mp (busy_of_step_error failed)), noteStep_false, failed]
      rfl
  | @cons j _ _ _ busy head _ ih =>
    cases remaining with
    | zero => exact absurd few (by omega)
    | succ left =>
      have count : limit - left + j = limit - (left + 1) + (j + 1) := by omega
      rw [stepAll_of_step busy head, ih (by omega) (by omega) failed, count]

theorem sayResults_quiet (quiet : options.debug = false) (results : List Value) (t : Transcript) :
    sayResults options results t = .ok () { t with out := t.out ++ resultLines results } := by
  unfold sayResults resultLines
  split
  · rw [quiet, Array.appendList_nil]
    rfl
  · have rest := forM_say resultLine results.zipIdx { t with out := t.out.push "Result:" }
    exact rest.trans (by simp)

end Quiet

/-- What a run comes to that is allowed a number of steps. -/
inductive Verdict where
  | returned (values : List Value)
  | unfinished
  | trapped (e : Error) (steps : Nat)
  deriving DecidableEq, Repr

/-- What somebody is told about a run who takes so many steps at once; of a trap also how many steps there are
before it. -/
def Verdict.Holds (limit : Nat) (started : Machine) : Verdict → Prop
  | returned values => ∃ m, runSteps limit started = .ok true m ∧ m.results = values
  | unfinished => ∃ m, runSteps limit started = .ok false m
  | trapped e steps => ∃ m, runSteps limit started = .error e m ∧ Traps steps started e m

/-- What somebody is told who waits for the end of a run. -/
def Verdict.HoldsAtEnd (started : Machine) : Verdict → Prop
  | returned values => ∃ fuel m, run? fuel started = some (.ok () m) ∧ m.results = values
  | unfinished => False
  | trapped e steps => ∃ fuel m, run? fuel started = some (.error e m) ∧ Traps steps started e m

/-- What a report says about a run with a limit: nothing but the results, or by its status and its last line on the
error output that the limit has been reached, or which error the run has trapped with and after how many steps. -/
def Shows (limit : Nat) (r : Report) : Verdict → Prop
  | .returned values => r.code = 0 ∧ r.out = Session.text (resultLines values).toArray
  | .unfinished => r.code = 1 ∧ r.out = "" ∧ lastLine r.err = "Error: \"" ++ limitMessage limit ++ "\""
  | .trapped e steps => r.code = 1 ∧ r.out = "" ∧ lastLine r.err = "Error: \"" ++ trapMessage e steps ++ "\""

/-- A report says one thing about a run. -/
theorem Shows.unique {limit : Nat} {r : Report} {verdict other : Verdict} (shows_ : Shows limit r verdict)
    (shows' : Shows limit r other) : verdict = other := by
  have codes : (0 : UInt32) ≠ 1 := by decide
  cases verdict with
  | returned values =>
    cases other with
    | returned others => rw [text_resultLines_injective (shows_.2.symm.trans shows'.2)]
    | unfinished => exact (codes (shows_.1.symm.trans shows'.1)).elim
    | trapped e k => exact (codes (shows_.1.symm.trans shows'.1)).elim
  | unfinished =>
    cases other with
    | returned others => exact (codes (shows'.1.symm.trans shows_.1)).elim
    | unfinished => rfl
    | trapped e k => exact (limitMessage_ne_trapMessage (quotes_injective (shows_.2.2.symm.trans shows'.2.2))).elim
  | trapped e k =>
    cases other with
    | returned others => exact (codes (shows'.1.symm.trans shows_.1)).elim
    | unfinished => exact (limitMessage_ne_trapMessage (quotes_injective (shows'.2.2.symm.trans shows_.2.2))).elim
    | trapped e' k' =>
      obtain ⟨rfl, rfl⟩ := trapMessage_injective (quotes_injective (shows_.2.2.symm.trans shows'.2.2))
      rfl

namespace Verdict

variable {limit : Nat} {started : Machine} {verdict : Verdict}

theorem exists_holds (limit : Nat) (started : Machine) : ∃ verdict : Verdict, verdict.Holds limit started := by
  have spec := runSteps_spec limit started
  cases told : runSteps limit started with
  | ok finished m =>
    cases finished with
    | true => exact ⟨.returned m.results, m, told, rfl⟩
    | false => exact ⟨.unfinished, m, told⟩
  | error e m =>
    rw [told] at spec
    obtain ⟨k, -, traps⟩ := spec
    exact ⟨.trapped e k, m, told, traps⟩

/-- What is told of a run that ends within the limit is what is told at its end. -/
theorem holds_iff_holdsAtEnd {fuel : Nat} (enough : fuel ≤ limit) (ends : (run? fuel started).isSome = true) :
    verdict.Holds limit started ↔ verdict.HoldsAtEnd started := by
  obtain ⟨result, ended⟩ := Option.isSome_iff_exists.mp ends
  obtain ⟨n, within, endsIn⟩ := run?_eq_some_iff.mp ended
  have told : runSteps limit started = reported result := endsIn.runSteps_of_le (Nat.le_trans within enough)
  have final {fuel' : Nat} {other : EStateM.Result Error Machine Unit} (ended' : run? fuel' started = some other) :
      other = result := by
    obtain ⟨n', -, endsIn'⟩ := run?_eq_some_iff.mp ended'
    exact (endsIn.deterministic endsIn').2
  cases verdict with
  | returned values =>
    constructor
    · rintro ⟨m, ran, isValues⟩
      obtain rfl : result = .ok () m := reported_injective (told.symm.trans ran)
      exact ⟨fuel, m, ended, isValues⟩
    · rintro ⟨fuel', m, ended', isValues⟩
      obtain rfl := final ended'
      exact ⟨m, told, isValues⟩
  | unfinished =>
    constructor
    · rintro ⟨m, ran⟩
      rw [told] at ran
      cases result <;> cases ran
    · exact False.elim
  | trapped e k =>
    constructor
    · rintro ⟨m, ran, traps⟩
      obtain rfl : result = .error e m := reported_injective (told.symm.trans ran)
      exact ⟨fuel, m, ended, traps⟩
    · rintro ⟨fuel', m, ended', traps⟩
      obtain rfl := final ended'
      exact ⟨m, told, traps⟩

/-- What is seen of the tool's session when a run has come to a verdict. -/
def ending (limit : Nat) : Verdict → Except Stop Unit × Array String
  | returned values => (.ok (), (resultLines values).toArray)
  | unfinished => (.error (.gaveUp (limitMessage limit)), #[])
  | trapped e steps => (.error (.gaveUp (trapMessage e steps)), #[])

theorem shows_of_ending {s : Session Unit} (ended : seen (s.run {}) = verdict.ending limit) :
    Shows limit s.report verdict := by
  cases verdict with
  | returned values => exact report_of_done ended
  | unfinished => exact report_of_gaveUp ended fun c => isPlain_of_mem_limitMessage
  | trapped e k => exact report_of_gaveUp ended fun c => isPlain_of_mem_trapMessage

/-- Without notes the tool's session ends as the run does. -/
theorem ending_of_holds {options : RunOptions} (quiet : options.debug = false) (holds : verdict.Holds limit started) :
    seen ((stepAll false limit limit started >>= fun (m, _) => sayResults options m.results) {}) =
      verdict.ending limit := by
  have spec := runSteps_spec limit started
  cases verdict with
  | returned values =>
    obtain ⟨m, ran, rfl⟩ := holds
    rw [ran] at spec
    obtain ⟨idle, n, enough, steps, -⟩ := spec
    have finishes : Finishes n started m := ⟨steps, idle_iff.mp idle.symm⟩
    simp only [bind, EStateM.bind, stepAll_of_finishes finishes enough, sayResults_quiet quiet]
    simp [seen, ending]
  | unfinished =>
    obtain ⟨m, ran⟩ := holds
    have steps := steps_of_runSteps ran
    rw [ran] at spec
    have busy : m.frames ≠ [] := mt idle_iff.mpr (Bool.eq_false_iff.mp spec.1.symm)
    simp only [bind, EStateM.bind, stepAll_of_steps steps busy]
    rfl
  | trapped e k =>
    obtain ⟨m, ran, traps⟩ := holds
    rw [ran] at spec
    obtain ⟨k', few, traps'⟩ := spec
    obtain ⟨rfl, -, -⟩ := traps.deterministic traps'
    simp only [bind, EStateM.bind, stepAll_of_traps traps few (Nat.le_refl limit), Nat.sub_self, Nat.zero_add]
    rfl

end Verdict

theorem start_of_exported {d : Document} {m : Machine} {name : String} {index : UInt32} {args : List Value}
    (loaded : d.instantiate = .ok m) (exported : m.functionIndex? name = some index)
    (count : ∀ f, m.functions[index.toNat]? = some f → args.length = f.params.length) :
    ∃ started, start index args m = .ok () started := by
  have ready := Document.ready_of_instantiate loaded
  have listed : (name, index) ∈ m.exports := by
    obtain ⟨before, after, split, -⟩ := List.lookup_eq_some_iff.mp exported
    simp [split]
  have known := List.getElem?_eq_getElem (ready.exports (name, index) listed)
  exact ⟨_, start_eq_ok_iff.mpr ⟨ready.idle, _, known, count _ known, rfl⟩⟩

/-- The text of a program that divides twelve by its argument. -/
def quotientText : String :=
  "\x7b\"functions\": [\x7b\"name\": \"main\", \"params\": [\"i32\"], \"results\": [\"i32\"], " ++
    "\"body\": [\"i32.const 12\", \"local.get 0\", \"i32.div_s\"]\x7d]\x7d"

def quotient : Document where
  functions := [
    { name := some "main"
      params := ["i32"]
      results := ["i32"]
      body := ["i32.const 12", "local.get 0", "i32.div_s"] }]

def dividing : Function where
  params := [.i32]
  results := [.i32]
  body := #[.const 12, .localGet 0, .binary .div]

section Nested
variable {n k : Nat}

/-- A program that opens the given number of scopes in each other before its last instruction. -/
def nested (n : Nat) : Document where
  functions := [{ name := some "main", body := List.replicate n "block" ++ ["nop"] }]

/-- Its function. -/
def nesting (n : Nat) : Function where
  body := (List.replicate n (Instruction.enter .block .empty) ++ [Instruction.nop]).toArray

theorem instantiate_nested (n : Nat) :
    (nested n).instantiate = .ok { functions := [nesting n], exports := [("main", 0)] } := by
  have lines (names : List (String × UInt32)) : List.Forall₂ (fun line i => Document.parseLine names line = .ok i)
      (List.replicate n "block" ++ ["nop"]) (List.replicate n (.enter .block .empty) ++ [.nop]) := by
    have opens : Document.parseLine names "block" = .ok (.enter .block .empty) := rfl
    have skips : Document.parseLine names "nop" = .ok .nop := rfl
    induction n with
    | zero => exact .cons skips .nil
    | succ n ih => exact .cons opens ih
  refine (Document.instantiate_eq_ok_iff (by simp [nested, UInt32.size])).mpr
    ⟨[], [nesting n], .nil, .cons ?_ .nil, by simp [nested], rfl⟩
  exact FunctionEntry.parse_eq_ok_iff.mpr ⟨lines (nested n).names, .nil, .nil, .nil⟩

theorem size_nesting (n : Nat) : (nesting n).size = n + 1 := by
  simp [nesting, Function.size]

/-- The function's frame with some scopes open. -/
def nestedFrame (n k : Nat) (inner : List Scope) : Frame := { function := nesting n, locals := [], pc := k, inner }

/-- The program's machine with that frame. -/
def nestedMachine (n k : Nat) (inner : List Scope) : Machine :=
  { functions := [nesting n], exports := [("main", 0)], frames := [nestedFrame n k inner] }

theorem instruction?_nestedFrame (within : k ≤ n) (inner : List Scope) :
    (nestedFrame n k inner).instruction? = some (if k < n then .enter .block .empty else .nop) := by
  change (nesting n).body[k]? = _
  rw [nesting, List.getElem?_toArray]
  split_ifs with inside
  · rw [List.getElem?_append_left (by simpa using inside), List.getElem?_replicate_of_lt inside]
  · obtain rfl : k = n := Nat.le_antisymm within (Nat.le_of_not_lt inside)
    rw [List.getElem?_append_right (by simp)]
    simp

theorem step_nestedMachine (inside : k < n) (inner : List Scope) :
    ∃ scope, step (nestedMachine n k inner) = .ok () (nestedMachine n (k + 1) (scope :: inner)) := by
  have next := instruction?_nestedFrame (Nat.le_of_lt inside) inner
  rw [if_pos inside] at next
  refine ⟨{ type := .empty, target := (nesting n).afterEnd k }, ?_⟩
  have unfinished : (nestedFrame n (k + 1) inner).pc ≠ (nesting n).size := by
    rw [size_nesting]
    exact Nat.ne_of_lt (Nat.succ_lt_succ inside)
  rw [step_of_effect rfl next (by nofun)]
  exact congrArg (EStateM.Result.ok ()) (retireFinished_of_not_end rfl unfinished)

theorem step_nestedMachine_last (n : Nat) (inner : List Scope) :
    ∃ m, step (nestedMachine n n inner) = .ok () m ∧ m.frames = [] := by
  have next := instruction?_nestedFrame (Nat.le_refl n) inner
  rw [if_neg (Nat.lt_irrefl n)] at next
  rw [step_of_effect rfl next (by nofun)]
  exact ⟨_, congrArg (EStateM.Result.ok ()) (retireFinished_of_end rfl (size_nesting n).symm), rfl⟩

/-- All scopes are opened one by one. -/
theorem steps_nestedMachine (within : k ≤ n) :
    ∃ inner : List Scope, inner.length = k ∧ Steps k (nestedMachine n 0 []) (nestedMachine n k inner) := by
  induction k with
  | zero => exact ⟨[], rfl, .refl _⟩
  | succ k ih =>
    obtain ⟨inner, length, steps⟩ := ih (Nat.le_of_succ_le within)
    obtain ⟨scope, step⟩ := step_nestedMachine within inner
    exact ⟨scope :: inner, congrArg Nat.succ length, steps.append (.single (List.cons_ne_nil _ _) step)⟩

theorem begins_nested (n : Nat) (trace : Bool) :
    Begins { trace } (.ok (nested n).print) (nestedMachine n 0 []) := by
  have starts : start 0 [] { functions := [nesting n], exports := [("main", 0)] } =
      .ok () (nestedMachine n 0 []) := rfl
  exact .intro rfl (Document.parse_print _) (instantiate_nested n) rfl .nil starts

/-- The program finishes, unless it is traced and the line for its last instruction is too wide. -/
theorem report_nested (path : String) (few : n < largestLimit) (wide : Text.largestWidth < n * 2) :
    (Command.report (.ok (nested n).print) (.run path {})).code = 0 ∧
      (Command.report (.ok (nested n).print) (.run path { trace := true })).code = abortStatus := by
  obtain ⟨inner, length, steps⟩ := steps_nestedMachine (Nat.le_refl n)
  obtain ⟨m, last, idle⟩ := step_nestedMachine_last n inner
  constructor
  · have finishes : EndsIn (n + 1) (nestedMachine n 0 []) (.ok () m) :=
      ⟨steps.append (.single (List.cons_ne_nil _ _) last), idle⟩
    have holds : (Verdict.returned m.results).Holds largestLimit (nestedMachine n 0 []) :=
      ⟨m, finishes.runSteps_of_le few, rfl⟩
    have ended : seen ((run path {} (.ok (nested n).print)).run {}) =
        (Verdict.returned m.results).ending largestLimit := by
      rw [EStateM.run, run_quiet path rfl (begins_nested n false)]
      exact Verdict.ending_of_holds rfl holds
    have shows_ : Shows largestLimit (run path {} (.ok (nested n).print)).report (.returned m.results) :=
      Verdict.shows_of_ending ended
    exact shows_.1
  · refine (report_of_not_traceable path rfl fun traceable => ?_).1
    have legible := traceable _ (begins_nested n true) n _ few steps (nestedFrame n n inner) rfl
    have width : traceWidth (nestedMachine n n inner) (nestedFrame n n inner) = 0 * 2 + n * 2 := by
      have depth : (nestedFrame n n inner).depth = n + 1 := congrArg Nat.succ length
      rw [traceWidth, instruction?_nestedFrame (Nat.le_refl n) inner, depth]
      rfl
    rw [width, Nat.zero_mul, Nat.zero_add] at legible
    exact absurd legible (Nat.not_le_of_lt wide)

end Nested

end Tool

end ScopeMachine
