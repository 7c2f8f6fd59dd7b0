import ScopeMachine.Proofs.Nesting
import ScopeMachine.Proofs.Tool.Exports

/-! # The indentation of listings

A listing keeps count of the scopes on its way through a body, and the jump table knows which scopes are open before
each position. The count is that of the table (`Function.openAt`) as long as every alternative stands in a scope. An
alternative that stands outside of all scopes is counted as if it opened one, until a closing instruction that stands
outside of all scopes takes it back: `Function.Astray` are the positions in between, and `Function.shownOpen` is the
count, which each instruction changes as it is said in `Tool.depths`. How far a line is indented is measured on the
line itself (`Tool.indentation`).
-/

namespace ScopeMachine

namespace Function

variable {f : Function} {pc : Nat}

/-- Of the alternatives and closing instructions that stand outside of all scopes before a position, the last one is
an alternative. -/
def Astray (f : Function) (pc : Nat) : Prop :=
  ∃ q < pc, f.body[q]? = some .otherwise ∧ f.openAt q = [] ∧
    ∀ r < pc, q < r → f.body[r]? = some .close → f.openAt r ≠ []

instance : Decidable (f.Astray pc) :=
  inferInstanceAs (Decidable (∃ q < pc, f.body[q]? = some .otherwise ∧ f.openAt q = [] ∧
    ∀ r < pc, q < r → f.body[r]? = some .close → f.openAt r ≠ []))

theorem not_astray (inside : ∀ q < pc, f.body[q]? = some .otherwise → f.openAt q ≠ []) : ¬f.Astray pc := by
  rintro ⟨q, before, alternative, outside, -⟩
  exact inside q before alternative outside

theorem astray_succ : f.Astray (pc + 1) ↔ (f.body[pc]? = some .otherwise ∧ f.openAt pc = []) ∨
    (f.Astray pc ∧ (f.body[pc]? = some .close → f.openAt pc ≠ [])) := by
  constructor
  · rintro ⟨q, before, alternative, outside, since⟩
    rcases Nat.lt_succ_iff_lt_or_eq.mp before with earlier | rfl
    · exact .inr ⟨⟨q, earlier, alternative, outside, fun r less => since r (Nat.lt_succ_of_lt less)⟩,
        since pc (Nat.lt_succ_self pc) earlier⟩
    · exact .inl ⟨alternative, outside⟩
  · rintro (⟨alternative, outside⟩ | ⟨⟨q, before, alternative, outside, since⟩, here⟩)
    · exact ⟨pc, Nat.lt_succ_self pc, alternative, outside, fun r less after => by omega⟩
    · refine ⟨q, Nat.lt_succ_of_lt before, alternative, outside, fun r less after => ?_⟩
      rcases Nat.lt_succ_iff_lt_or_eq.mp less with earlier | rfl
      · exact since r earlier after
      · exact here

/-- The number of scopes that a listing counts as open before a position. -/
def shownOpen (f : Function) (pc : Nat) : Nat := (f.openAt pc).length + if f.Astray pc then 1 else 0

theorem shownOpen_zero : f.shownOpen 0 = 0 := by
  have none : ¬f.Astray 0 := not_astray nofun
  rw [shownOpen, if_neg none]
  rfl

theorem length_openAt (f : Function) (pc : Nat) : (f.openAt pc).length = (f.enclosing pc).length :=
  List.length_reverse.symm

theorem shownOpen_enter {kind : ScopeKind} {type : BlockType} (next : f.body[pc]? = some (.enter kind type)) :
    f.shownOpen (pc + 1) = f.shownOpen pc + 1 := by
  have bound : pc < f.size := (Array.getElem?_eq_some_iff.mp next).1
  have entered := (aligned (Nat.le_of_lt bound)).enter next
  have same : f.Astray (pc + 1) ↔ f.Astray pc := by simp [astray_succ, next]
  simp only [shownOpen, length_openAt, entered, same, List.length_cons]
  omega

theorem shownOpen_close (next : f.body[pc]? = some .close) : f.shownOpen (pc + 1) = f.shownOpen pc - 1 := by
  have bound : pc < f.size := (Array.getElem?_eq_some_iff.mp next).1
  have closed := (aligned (Nat.le_of_lt bound)).close next
  have kept : f.Astray (pc + 1) ↔ f.Astray pc ∧ (f.openAt pc).length ≠ 0 := by simp [astray_succ, next]
  simp only [shownOpen, kept]
  rw [length_openAt f (pc + 1), closed, List.length_drop, ← length_openAt]
  by_cases astray : f.Astray pc
  · -- Outside of all scopes this takes the alternative back, and in a scope it ends that.
    simp only [astray, true_and, ↓reduceIte]
    split_ifs <;> omega
  · simp only [astray, false_and, ↓reduceIte]
    omega

theorem shownOpen_otherwise (next : f.body[pc]? = some .otherwise) :
    f.shownOpen (pc + 1) = max (f.shownOpen pc) 1 := by
  have bound : pc < f.size := (Array.getElem?_eq_some_iff.mp next).1
  have stays := (aligned (Nat.le_of_lt bound)).stays next rfl nofun
  have gone : f.Astray (pc + 1) ↔ (f.openAt pc).length = 0 ∨ f.Astray pc := by simp [astray_succ, next]
  simp only [shownOpen, gone]
  rw [length_openAt f (pc + 1), stays, ← length_openAt]
  by_cases astray : f.Astray pc
  · simp only [astray, or_true, ↓reduceIte]
    omega
  · simp only [astray, or_false, ↓reduceIte]
    split_ifs <;> omega

theorem shownOpen_of_keepsScopes {i : Instruction} (next : f.body[pc]? = some i) (keeps : i.keepsScopes = true) :
    f.shownOpen (pc + 1) = f.shownOpen pc := by
  have bound : pc < f.size := (Array.getElem?_eq_some_iff.mp next).1
  have notOpener : i.opensScope = false := by
    cases i with
    | enter => cases keeps
    | _ => rfl
  have notClose : i ≠ .close := by
    rintro rfl
    cases keeps
  have notOtherwise : i ≠ .otherwise := by
    rintro rfl
    cases keeps
  have stays := (aligned (Nat.le_of_lt bound)).stays next notOpener notClose
  have same : f.Astray (pc + 1) ↔ f.Astray pc := by simp [astray_succ, next, notClose, notOtherwise]
  simp only [shownOpen, length_openAt, stays, same]

end Function

/-- How many of the scopes that are open before an instruction it stands in: one that ends a scope stands outside of
it. -/
def Instruction.scopesAround (i : Instruction) (n : Nat) : Nat := if i = .close ∨ i = .otherwise then n - 1 else n

namespace Tool

variable {f : Function} {pc : Nat} {i : Instruction} {options : InspectOptions}

theorem length_depths (depth : Nat) (body : List Instruction) : (depths depth body).length = body.length := by
  induction body generalizing depth with
  | nil => rfl
  | cons i rest ih => rw [depths, List.length_cons, ih, List.length_cons]

theorem drop_body (next : f.body[pc]? = some i) : f.body.toList.drop pc = i :: f.body.toList.drop (pc + 1) := by
  obtain ⟨bound, rfl⟩ := List.getElem?_eq_some_iff.mp (Array.getElem?_toList.trans next)
  exact List.drop_eq_getElem_cons bound

/-- From each position on, instructions are shown by the number of scopes that are counted as open before it. -/
theorem drop_depths (within : pc ≤ f.size) :
    (depths 1 f.body.toList).drop pc = depths (1 + f.shownOpen pc) (f.body.toList.drop pc) := by
  induction pc with
  | zero =>
    rw [Function.shownOpen_zero]
    rfl
  | succ pc ih =>
    obtain ⟨i, next⟩ : ∃ i, f.body[pc]? = some i := ⟨_, Array.getElem?_eq_getElem within⟩
    rw [← List.tail_drop, ih (Nat.le_of_succ_le within), drop_body next, depths, List.tail_cons]
    congr 1
    cases i with
    | enter kind type =>
      rw [Function.shownOpen_enter next]
      rfl
    | close =>
      rw [Function.shownOpen_close next]
      change max (1 + f.shownOpen pc - 1) 1 = _
      omega
    | otherwise =>
      rw [Function.shownOpen_otherwise next]
      change max (1 + f.shownOpen pc - 1) 1 + 1 = _
      omega
    | _ =>
      rw [Function.shownOpen_of_keepsScopes next rfl]
      rfl

theorem getElem?_depths (next : f.body[pc]? = some i) :
    (depths 1 f.body.toList)[pc]? = some (1 + i.scopesAround (f.shownOpen pc)) := by
  have bound : pc < f.size := (Array.getElem?_eq_some_iff.mp next).1
  rw [← List.head?_drop, drop_depths (Nat.le_of_lt bound), drop_body next, depths, List.head?_cons]
  congr 1
  unfold Instruction.scopesAround
  split <;> omega

theorem getElem?_bodyLines (next : f.body[pc]? = some i) :
    (bodyLines options f)[pc]? = some (instructionLine? options f pc (1 + i.scopesAround (f.shownOpen pc)) i) := by
  have shown : (f.body.toList.zip (depths 1 f.body.toList))[pc]? =
      some (i, 1 + i.scopesAround (f.shownOpen pc)) :=
    List.getElem?_zip_eq_some.mpr ⟨Array.getElem?_toList.trans next, getElem?_depths next⟩
  rw [bodyLines, List.getElem?_map, List.getElem?_zipIdx, shown, Nat.zero_add]
  rfl

theorem length_bodyLines (options : InspectOptions) (f : Function) : (bodyLines options f).length = f.size := by
  rw [bodyLines, List.length_map, List.length_zipIdx, List.length_zip, length_depths, Nat.min_self]
  rfl

/-- The column of a position in a listing. -/
def column (pc : Nat) : String := Text.alignRight 6 (toString pc) ++ "  "

/-- The number of spaces in a line right after the column of its position. -/
def indentation (pc : Nat) (line : String) : Nat :=
  ((line.toList.drop (column pc).toList.length).takeWhile (· = ' ')).length

theorem toList_spaces (n : Nat) : (Text.spaces n).toList = List.replicate n ' ' := by
  rw [Text.spaces, String.pushn_eq_repeat_push]
  induction n with
  | zero => rfl
  | succ n ih => rw [Nat.repeat, String.toList_push, ih, ← List.replicate_succ']

/-- No instruction is written with a space in front. -/
theorem exists_head_text (i : Instruction) : ∃ c cs, i.text.toList = c :: cs ∧ c ≠ ' ' := by
  have isWord := i.isWord_name
  obtain ⟨c, cs, name⟩ := List.exists_cons_of_ne_nil (mt String.toList_eq_nil_iff.mp isWord.nonempty)
  have noSpace : c ≠ ' ' := by
    rintro rfl
    exact absurd (isWord.joined ' ' (name ▸ List.mem_cons_self)) (by decide)
  unfold Instruction.text
  split
  · exact ⟨c, _, by rw [String.toList_append, String.toList_append, name]; rfl, noSpace⟩
  · exact ⟨c, cs, name, noSpace⟩

/-- There is a line unless it is indented too far. -/
theorem instructionLine?_eq_none_iff {depth : Nat} :
    instructionLine? options f pc depth i = none ↔ Text.largestWidth < 2 * depth := by
  simp [instructionLine?, Text.indent?, Nat.mul_comm depth 2]

/-- A line begins with the column of its position, the indentation and the instruction. -/
theorem exists_note_of_instructionLine? {depth : Nat} {line : String}
    (written : instructionLine? options f pc depth i = some line) :
    ∃ note, line = column pc ++ Text.spaces (2 * depth) ++ i.text ++ note := by
  obtain ⟨indent, fits, rfl⟩ := Option.map_eq_some_iff.mp written
  obtain ⟨-, same⟩ := Option.ite_none_right_eq_some.mp fits
  obtain rfl := Option.some.inj same
  rw [Nat.mul_comm depth 2]
  cases options.verbose with
  | false => exact ⟨"", String.append_empty.symm⟩
  | true => exact ⟨_, String.append_assoc⟩

theorem indentation_eq (pc n : Nat) (i : Instruction) (note : String) :
    indentation pc (column pc ++ Text.spaces n ++ i.text ++ note) = n := by
  obtain ⟨c, cs, text, noSpace⟩ := exists_head_text i
  have spaces : ∀ c ∈ List.replicate n ' ', decide (c = ' ') = true := by
    intro c member
    exact decide_eq_true (List.eq_of_mem_replicate member)
  simp only [indentation, String.toList_append, List.append_assoc, List.drop_left, toList_spaces, text,
    List.cons_append]
  rw [List.takeWhile_append_of_pos spaces, List.takeWhile_cons_of_neg (by simpa using noSpace), List.append_nil,
    List.length_replicate]

/-- The line of an instruction is indented by two spaces for the body and by two more for each scope that the
instruction stands in, of those that the listing counts as open. -/
theorem indentation_bodyLines {line : String} (next : f.body[pc]? = some i)
    (shown : (bodyLines options f)[pc]? = some (some line)) :
    (∃ note, line = column pc ++ Text.spaces (indentation pc line) ++ i.text ++ note) ∧
      indentation pc line = 2 * (1 + i.scopesAround (f.shownOpen pc)) := by
  rw [getElem?_bodyLines next] at shown
  obtain ⟨note, rfl⟩ := exists_note_of_instructionLine? (Option.some.inj shown)
  rw [indentation_eq]
  exact ⟨⟨note, rfl⟩, rfl⟩

/-- Without the restriction to exports, the inspect tool shows of each function its line and the lines of its body,
one for each instruction, up to the first that would be indented too far to be laid out. Behind the column of its
position, an instruction is indented by two spaces and by two more for each scope that is open before it, or each but
one if it ends a scope; one more scope is counted where an alternative that stands outside of all scopes leads astray.
So the indentation shows the scopes of the jump table wherever all alternatives before stand in scopes. -/
theorem report_listing {text : String} {d : Document} {m : Machine} (parsed : Document.parse text = .ok d)
    (loaded : d.instantiate = .ok m) (path : String) (options : InspectOptions) (whole : options.exportsOnly = false) :
    Command.report (.ok text) (.inspect path options) =
        Session.listing ((s!"Program: {path}" :: "" :: (globalLines m ++
          ["", s!"Functions ({m.functions.length}):"])).map some ++ m.functions.zipIdx.flatMap fun (f, k) =>
            some (functionLine k (exportName? m k) f) :: bodyLines options f) ∧
      ∀ f : Function, (bodyLines options f).length = f.size ∧ ∀ pc i, f.body[pc]? = some i →
        ((bodyLines options f)[pc]? = some none ↔ Text.largestWidth <
          2 * (1 + i.scopesAround ((f.openAt pc).length + if f.Astray pc then 1 else 0))) ∧
        ∀ line, (bodyLines options f)[pc]? = some (some line) →
          (∃ note, line = column pc ++ Text.spaces (indentation pc line) ++ i.text ++ note) ∧
          indentation pc line =
            2 * (1 + i.scopesAround ((f.openAt pc).length + if f.Astray pc then 1 else 0)) ∧
          ((∀ q < pc, f.body[q]? = some .otherwise → f.openAt q ≠ []) →
            indentation pc line = 2 * (1 + i.scopesAround (f.openAt pc).length)) := by
  constructor
  · have lines (k : Nat) (f : Function) : functionLines options k (exportName? m k) f =
        some (functionLine k (exportName? m k) f) :: bodyLines options f := by simp [functionLines, whole]
    rw [report_inspect parsed loaded]
    simp only [machineLines, whole, lines, Bool.false_eq_true, ↓reduceIte]
    simp
  · refine fun f => ⟨length_bodyLines options f, fun pc i next => ⟨?_, fun line shown => ?_⟩⟩
    · rw [getElem?_bodyLines next, Option.some.injEq]
      exact instructionLine?_eq_none_iff
    · obtain ⟨parts, indented⟩ := indentation_bodyLines next shown
      refine ⟨parts, indented, fun inside => ?_⟩
      rw [indented, Function.shownOpen, if_neg (Function.not_astray inside), Nat.add_zero]

/-- A body with a condition, and an alternative and a closing instruction outside of it. -/
def tangled : Function where
  body := #[.enter .cond .empty, .nop, .otherwise, .nop, .close, .otherwise, .nop, .close, .nop]

/-- The text of a program with that body. -/
def tangledText : String :=
  "\x7b\"functions\": [\x7b\"body\": [\"if\", \"nop\", \"else\", \"nop\", \"end\", \"else\", \"nop\", " ++
    "\"end\", \"nop\"]\x7d]\x7d"

def tangledDocument : Document where
  functions := [{ body := ["if", "nop", "else", "nop", "end", "else", "nop", "end", "nop"] }]

def tangledLines : List String :=
  ["Program: tangled.json", "", "Globals (0):", "", "Functions (1):", "  [0] <anonymous> () -> () locals: ()",
    "     0    if",
    "     1      nop",
    "     2    else",
    "     3      nop",
    "     4    end",
    "     5    else",
    "     6      nop",
    "     7    end",
    "     8    nop"]

/-- The first alternative stands in a scope. The second one leads astray up to the closing instruction after it. -/
theorem report_listing_tangled :
    Command.report (.ok tangledText) (.inspect "tangled.json" {}) = { out := Session.text tangledLines.toArray } ∧
      (∃ line, (bodyLines {} tangled)[3]? = some (some line) ∧ indentation 3 line = 4) ∧
      ∃ line, (bodyLines {} tangled)[6]? = some (some line) ∧ indentation 6 line = 4 := by
  have parsed : Document.parse tangledText = .ok tangledDocument := by decide +kernel
  have loaded : tangledDocument.instantiate = .ok { functions := [tangled] } := by decide +kernel
  obtain ⟨report, listing⟩ := report_listing parsed loaded "tangled.json" {} rfl
  obtain ⟨-, lines⟩ := listing tangled
  have written (lines : List (Option String)) (same : lines = tangledLines.map some) :
      Session.listing lines = { out := Session.text tangledLines.toArray } := by
    rw [same, Session.listing_map_some]
  refine ⟨report.trans (written _ ?_), ?_, ?_⟩
  · decide +kernel
  · have shown : (bodyLines {} tangled)[3]? = some (some "     3      nop") := by decide +kernel
    obtain ⟨-, inScopes⟩ := lines 3 .nop rfl
    exact ⟨_, shown, (inScopes _ shown).2.2 (by decide)⟩
  · have shown : (bodyLines {} tangled)[6]? = some (some "     6      nop") := by decide +kernel
    obtain ⟨-, inScopes⟩ := lines 6 .nop rfl
    exact ⟨_, shown, (inScopes _ shown).2.1⟩

/-- A body that begins with an alternative. -/
def headless : Function where
  body := #[.otherwise, .nop]

/-- The text of a program with that body. -/
def headlessText : String :=
  "\x7b\"functions\": [\x7b\"name\": \"f\", \"body\": [\"else\", \"nop\"]\x7d]\x7d"

/-- Behind an alternative that stands outside of all scopes, an instruction is shown in a scope although none is
open. -/
theorem indentation_behind_alternative :
    (Command.report (.ok headlessText) (.inspect "stdin" {})).out =
        "Program: stdin\n\nGlobals (0):\n\nFunctions (1):\n  [0] f () -> () locals: ()\n" ++
          "     0    else\n     1      nop\n" ∧
      headless.openAt 1 = [] ∧
      ∃ line, (bodyLines {} headless)[1]? = some (some line) ∧ indentation 1 line = 4 ∧
        indentation 1 line ≠ 2 * (1 + Instruction.nop.scopesAround (headless.openAt 1).length) :=
  ⟨by decide +kernel, by decide, _, rfl, by cbv, by decide⟩

end Tool

end ScopeMachine
