import Mathlib.Data.List.Basic
import ScopeMachine.Proofs.Message
import ScopeMachine.Tool.Session

/-! # What is seen of a session

A session is seen by how it ends and by what it has written to the output (`Session.seen`). What it notes on the error
output is an account of its work that makes no difference to that: sessions that do the same but note other things are
`Session.Alike`, and so are all that are put together from such sessions. The error output of a session that has given
up ends with its message (`Session.report_of_gaveUp`). Of a list of lines a session writes those before the first that
cannot be laid out (`Session.forM_orAbort`).
-/

namespace ScopeMachine

namespace Session

variable {α β : Type} {s s' : Session α}

/-- What is seen of a session besides its notes: how it ends, and the lines that are on the output then. -/
def seen : EStateM.Result Stop Transcript α → Except Stop α × Array String
  | .ok a t => (.ok a, t.out)
  | .error stop t => (.error stop, t.out)

/-- The status that is reported of a session. -/
def status : Except Stop Unit → UInt32
  | .ok _ => 0
  | .error (.gaveUp _) => 1
  | .error .aborted => abortStatus

theorem report_code (s : Session Unit) : (report s).code = status (seen (s.run {})).1 := by
  unfold report
  cases s.run {} with
  | ok => rfl
  | error stop t => cases stop <;> rfl

theorem report_out (s : Session Unit) : (report s).out = text (seen (s.run {})).2 := by
  unfold report
  cases s.run {} with
  | ok => rfl
  | error stop t => cases stop <;> rfl

/-- Sessions that go on from the same output are seen alike, whatever has been noted and will be. -/
def Alike (s s' : Session α) : Prop := ∀ t t' : Transcript, t.out = t'.out → seen (s t) = seen (s' t')

namespace Alike

theorem pure (a : α) : Alike (pure a : Session α) (Pure.pure a) := by
  intro t t' same
  exact congrArg (Prod.mk _) same

theorem throw (stop : Stop) : Alike (throw stop : Session α) (MonadExcept.throw stop) := by
  intro t t' same
  exact congrArg (Prod.mk _) same

theorem giveUp (message : String) : Alike (giveUp message : Session α) (Session.giveUp message) := throw _

theorem say (line : String) : Alike (say line) (Session.say line) := by
  intro t t' same
  exact congrArg (fun out : Array String => (Except.ok (), out.push line)) same

/-- It makes no difference what is noted, and whether anything is. -/
theorem noteIf (wanted wanted' : Bool) (line line' : String) :
    Alike (noteIf wanted line) (Session.noteIf wanted' line') := by
  intro t t' same
  cases wanted <;> cases wanted' <;> exact congrArg (Prod.mk _) same

/-- Sessions that go on alike from whatever the first of them can come to are alike. -/
theorem bind_of_ok {next next' : α → Session β} (first : Alike s s')
    (rest : ∀ {a t u}, s t = .ok a u → Alike (next a) (next' a)) : Alike (s >>= next) (s' >>= next') := by
  intro t t' same
  have started := first t t' same
  simp only [Bind.bind, EStateM.bind]
  cases left : s t with
  | ok a u =>
    cases right : s' t' with
    | ok b u' =>
      rw [left, right] at started
      simp only [seen, Prod.mk.injEq, Except.ok.injEq] at started
      obtain ⟨rfl, out⟩ := started
      exact rest left u u' out
    | error stop u' =>
      rw [left, right] at started
      simp [seen] at started
  | error stop u =>
    cases right : s' t' with
    | ok b u' =>
      rw [left, right] at started
      simp [seen] at started
    | error stop' u' =>
      rw [left, right] at started
      simpa only [seen, Prod.mk.injEq, Except.error.injEq] using started

theorem bind {next next' : α → Session β} (first : Alike s s') (rest : ∀ a, Alike (next a) (next' a)) :
    Alike (s >>= next) (s' >>= next') :=
  first.bind_of_ok fun _ => rest _

/-- Sessions that first give up on the same condition. -/
theorem giveUpIf {condition : Prop} [Decidable condition] (message : String) (rest : Alike s s') :
    Alike (if condition then Session.giveUp message >>= fun _ : PUnit => s else s)
      (if condition then Session.giveUp message >>= fun _ : PUnit => s' else s') := by
  split
  · exact bind (giveUp message) fun _ => rest
  · exact rest

theorem forM {work work' : α → Session PUnit} (each : ∀ a, Alike (work a) (work' a)) (xs : List α) :
    Alike (xs.forM work) (xs.forM work') := by
  induction xs with
  | nil => exact pure _
  | cons x xs ih => exact bind (each x) fun _ => ih

theorem mapM {work work' : α → Session β} (each : ∀ a, Alike (work a) (work' a)) (xs : List α) :
    Alike (xs.mapM work) (xs.mapM work') := by
  induction xs with
  | nil =>
    rw [List.mapM_nil, List.mapM_nil]
    exact pure _
  | cons x xs ih =>
    rw [List.mapM_cons, List.mapM_cons]
    exact bind (each x) fun b => bind ih fun bs => pure _

theorem orGiveUp (words : Error → String) (x : Except Error α) :
    Alike (orGiveUp words x) (Session.orGiveUp words x) := by
  cases x with
  | ok a => exact pure a
  | error e => exact giveUp _

theorem orAbort (line : Option String) : Alike (orAbort line) (Session.orAbort line) := by
  cases line with
  | some line => exact pure line
  | none => exact throw _

theorem loadProgram (path : String) (content : Except Unreadable String) :
    Alike (loadProgram path content) (Session.loadProgram path content) := by
  unfold Session.loadProgram
  cases content with
  | ok text => exact bind (pure text) fun text => bind (orGiveUp _ _) fun document => orGiveUp _ _
  | error why => exact bind (giveUp _) fun text => bind (orGiveUp _ _) fun document => orGiveUp _ _

/-- Sessions that are alike from the beginning have the same status and the same output. -/
theorem report {s s' : Session Unit} (alike : Alike s s') :
    (report s).code = (Session.report s').code ∧ (Session.report s).out = (Session.report s').out := by
  have ended : seen (s.run {}) = seen (s'.run {}) := alike {} {} rfl
  rw [report_code, report_code, report_out, report_out, ended]
  exact ⟨rfl, rfl⟩

end Alike

/-- The program of a document is loaded. -/
theorem loadProgram_ok {path text : String} {d : Document} {m : Machine} (parsed : Document.parse text = .ok d)
    (loaded : d.instantiate = .ok m) (t : Transcript) : loadProgram path (.ok text) t = .ok m t := by
  have document : (liftM (Document.parse text) : Except Error Document) = .ok d := by
    rw [parsed]
    rfl
  change (orGiveUp _ (liftM (Document.parse text)) >>= fun document => orGiveUp _ document.instantiate) t = _
  rw [document]
  change orGiveUp _ d.instantiate t = _
  rw [loaded]
  rfl

/-- What is done first has been done when all is done. -/
theorem bind_eq_ok {next : α → Session β} {b : β} {t u : Transcript} (done : (s >>= next) t = .ok b u) :
    ∃ a v, s t = .ok a v ∧ next a v = .ok b u := by
  simp only [bind, EStateM.bind] at done
  cases first : s t with
  | ok a v =>
    rw [first] at done
    exact ⟨a, v, rfl, done⟩
  | error stop v =>
    rw [first] at done
    cases done

/-- What stops first stops all. -/
theorem seen_bind_of_error {next : α → Session β} {t : Transcript} {stop : Stop} {lines : Array String}
    (stopped : seen (s t) = (.error stop, lines)) : seen ((s >>= next) t) = (.error stop, lines) := by
  simp only [bind, EStateM.bind]
  cases first : s t with
  | ok a v =>
    rw [first] at stopped
    simp [seen] at stopped
  | error stop' v =>
    rw [first] at stopped
    simpa [seen] using stopped

theorem orGiveUp_eq_ok {words : Error → String} {x : Except Error α} {a : α} {t u : Transcript}
    (done : orGiveUp words x t = .ok a u) : x = .ok a := by
  cases x with
  | ok b =>
    cases done
    rfl
  | error e => cases done

/-- Only the program of a document is loaded. -/
theorem loadProgram_eq_ok {path : String} {content : Except Unreadable String} {m : Machine} {t u : Transcript}
    (loaded : loadProgram path content t = .ok m u) :
    ∃ text d, content = .ok text ∧ Document.parse text = .ok d ∧ d.instantiate = .ok m := by
  unfold loadProgram at loaded
  cases content with
  | error why => cases loaded
  | ok text =>
    change (orGiveUp _ (liftM (Document.parse text)) >>= fun document => orGiveUp _ document.instantiate) t = _
      at loaded
    obtain ⟨d, _, parsed, instantiated⟩ := bind_eq_ok loaded
    refine ⟨text, d, rfl, ?_, orGiveUp_eq_ok instantiated⟩
    have lifted : (liftM (Document.parse text) : Except Error Document) = .ok d := orGiveUp_eq_ok parsed
    cases given : Document.parse text with
    | ok d' =>
      rw [given] at lifted
      exact congrArg Except.ok (Except.ok.inj lifted)
    | error why =>
      rw [given] at lifted
      cases lifted

/-- Lines that are written one after the other. -/
theorem forM_say (line : α → String) (xs : List α) (t : Transcript) :
    (xs.forM fun x => say (line x)) t = .ok () { t with out := t.out ++ xs.map line } := by
  induction xs generalizing t with
  | nil =>
    rw [List.map_nil, Array.appendList_nil]
    rfl
  | cons x xs ih =>
    change (xs.forM fun x => say (line x)) { t with out := t.out.push (line x) } = _
    rw [ih]
    simp

/-- The lines before the first that cannot be laid out. -/
def laidOut : List (Option String) → List String
  | [] | none :: _ => []
  | some line :: rest => line :: laidOut rest

@[simp] theorem laidOut_map_some (lines : List String) : laidOut (lines.map some) = lines := by
  induction lines with
  | nil => rfl
  | cons line lines ih => rw [List.map_cons, laidOut, ih]

/-- Lines are written one after the other, up to the first that cannot be laid out. -/
theorem forM_orAbort (lines : List (Option String)) (t : Transcript) :
    (lines.forM fun line => do say (← orAbort line)) t =
      if none ∈ lines then .error .aborted { t with out := t.out ++ laidOut lines }
      else .ok () { t with out := t.out ++ laidOut lines } := by
  induction lines generalizing t with
  | nil =>
    rw [if_neg List.not_mem_nil, laidOut, Array.appendList_nil]
    rfl
  | cons line lines ih =>
    cases line with
    | none =>
      rw [if_pos List.mem_cons_self, laidOut, Array.appendList_nil]
      rfl
    | some line =>
      change (lines.forM fun line => do say (← orAbort line)) { t with out := t.out.push line } = _
      rw [ih]
      simp [laidOut]

/-- The report of a session that writes lines and nothing else. -/
def listing (lines : List (Option String)) : Report :=
  if none ∈ lines then
    { code := abortStatus
      out := text (laidOut lines).toArray
      err := text #["Formatting argument out of range"] }
  else { out := text (laidOut lines).toArray }

theorem listing_map_some (lines : List String) : listing (lines.map some) = { out := text lines.toArray } := by
  have all : none ∉ lines.map some := by simp
  rw [listing, if_neg all, laidOut_map_some]

theorem mapM_pure {work : α → Session β} {xs : List α} {ys : List β}
    (each : List.Forall₂ (fun x y => work x = pure y) xs ys) (t : Transcript) : xs.mapM work t = .ok ys t := by
  induction each with
  | nil => rfl
  | cons head _ ih =>
    rw [List.mapM_cons, head]
    simp only [bind, EStateM.bind, pure, EStateM.pure] at ih ⊢
    rw [ih]

theorem mapM_eq_ok {work : α → Session β} {xs : List α} {ys : List β} {t u : Transcript}
    (done : xs.mapM work t = .ok ys u) : List.Forall₂ (fun x y => ∃ t u, work x t = .ok y u) xs ys := by
  induction xs generalizing ys t with
  | nil =>
    cases done
    exact .nil
  | cons x xs ih =>
    rw [List.mapM_cons] at done
    obtain ⟨y, v, first, rest⟩ := bind_eq_ok done
    obtain ⟨ys, w, others, whole⟩ := bind_eq_ok rest
    cases whole
    exact .cons ⟨t, v, first⟩ (ih others)

/-- The characters of written lines. -/
theorem toList_text (lines : List String) :
    (text lines.toArray).toList = lines.flatMap fun line => line.toList ++ ['\n'] := by
  simp [text, List.flatMap_map]

/-- Lines without ends of lines in them can be told from what is written. -/
theorem text_injective {lines others : List String} (whole : ∀ line ∈ lines, '\n' ∉ line.toList)
    (wholeOthers : ∀ line ∈ others, '\n' ∉ line.toList) (same : text lines.toArray = text others.toArray) :
    lines = others := by
  have chars := congrArg String.toList same
  rw [toList_text, toList_text] at chars
  clear same
  induction lines generalizing others with
  | nil =>
    cases others with
    | nil => rfl
    | cons other others => simp at chars
  | cons line lines ih =>
    cases others with
    | nil => simp at chars
    | cons other others =>
      obtain ⟨noEnd, whole⟩ := List.forall_mem_cons.mp whole
      obtain ⟨noEnd', wholeOthers⟩ := List.forall_mem_cons.mp wholeOthers
      simp only [List.flatMap_cons, List.append_assoc, List.singleton_append] at chars
      obtain ⟨first, rest⟩ := Text.append_cons_inj noEnd noEnd' chars
      rw [String.toList_inj.mp first, ih whole wholeOthers rest]

/-- The last line of what is written, without its end. -/
def lastLine (written : String) : String :=
  String.ofList (written.toList.dropLast.reverse.takeWhile (· ≠ '\n')).reverse

theorem lastLine_text {lines : Array String} {line : String} (whole : '\n' ∉ line.toList) :
    lastLine (text (lines.push line)) = line := by
  have joined : ∀ c ∈ line.toList.reverse, decide (c ≠ '\n') = true := by
    intro c member
    exact decide_eq_true fun same => whole (same ▸ List.mem_reverse.mp member)
  have chars : (text (lines.push line)).toList.dropLast = (text lines).toList ++ line.toList := by
    simp [text, ← List.append_assoc]
  have before : (text lines).toList.reverse.takeWhile (· ≠ '\n') = [] := by
    rw [← lines.toArray_toList, toList_text]
    rcases List.eq_nil_or_concat lines.toList with none | ⟨front, last, some⟩
    · rw [none]
      rfl
    · simp [some]
  rw [lastLine, chars, List.reverse_append, List.takeWhile_append_of_pos joined, before, List.append_nil,
    List.reverse_reverse, String.ofList_toList]

variable {s : Session Unit} {lines : Array String}

theorem report_of_done (ended : seen (s.run {}) = (.ok (), lines)) :
    (report s).code = 0 ∧ (report s).out = text lines := by
  rw [report_code, report_out, ended]
  exact ⟨rfl, rfl⟩

theorem report_of_listing {lines : List (Option String)}
    (ended : s.run {} = (lines.forM fun line => do say (← orAbort line)) {}) : report s = listing lines := by
  have written : (#[] : Array String) ++ laidOut lines = (laidOut lines).toArray := by simp
  unfold report listing
  rw [ended, forM_orAbort, written]
  by_cases wide : none ∈ lines
  · rw [if_pos wide, if_pos wide]
    rfl
  · rw [if_neg wide, if_neg wide]
    rfl

theorem report_of_aborted (ended : seen (s.run {}) = (.error .aborted, lines)) :
    (report s).code = abortStatus ∧ (report s).out = text lines := by
  rw [report_code, report_out, ended]
  exact ⟨rfl, rfl⟩

/-- Giving up with a plain message leaves that message in quotes. -/
theorem report_of_gaveUp {message : String} (ended : seen (s.run {}) = (.error (.gaveUp message), lines))
    (plain : ∀ c ∈ message.toList, Text.isPlain c = true) :
    (report s).code = 1 ∧ (report s).out = text lines ∧
      lastLine (report s).err = "Error: \"" ++ message ++ "\"" := by
  have whole : '\n' ∉ ("Error: \"" ++ message ++ "\"").toList := by
    simp only [String.toList_append, List.mem_append, not_or]
    exact ⟨⟨by decide, fun member => absurd (plain _ member) (by decide)⟩, by decide⟩
  refine ⟨by rw [report_code, ended]; rfl, by rw [report_out, ended], ?_⟩
  unfold report
  cases result : s.run {} with
  | ok _ t =>
    rw [result] at ended
    simp [seen] at ended
  | error stop t =>
    rw [result] at ended
    simp only [seen, Prod.mk.injEq, Except.error.injEq] at ended
    obtain ⟨rfl, rfl⟩ := ended
    dsimp only
    rw [Text.quoted_of_plain plain, ← String.append_assoc, ← String.append_assoc]
    exact lastLine_text whole

end Session

end ScopeMachine
