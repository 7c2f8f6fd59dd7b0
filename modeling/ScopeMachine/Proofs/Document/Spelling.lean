import ScopeMachine.Document.Basic
import ScopeMachine.Proofs.Json.Library

/-! # Spellings of a document

A document has many spellings: any layout of the tokens of a value in one of the forms that
`Document.WrittenAs` allows. With a library that does what it documents, these are exactly the texts from which the
document is read (`Document.parseWith_eq_ok_iff_spelling`), so no text is a spelling of two documents.
-/

namespace ScopeMachine

open Json

/-- A field that holds a list may be missing if the list is empty. -/
inductive ListField {α : Type} (WrittenAs : Json → α → Prop) : Option Json → List α → Prop
  | missing : ListField WrittenAs none []
  | given {items : List Json} {xs : List α} (each : List.Forall₂ WrittenAs items xs) :
      ListField WrittenAs (some (.array items)) xs

/-- A name that there is not is missing or null. -/
inductive NameField : Option Json → Option String → Prop
  | missing : NameField none none
  | null : NameField (some .null) none
  | given {name : String} : NameField (some (.string (some name))) (some name)

/-- The values that a global is written as. -/
def GlobalEntry.WrittenAs (v : Json) (g : GlobalEntry) : Prop :=
  Record ["type", "value"] v [some (.string (some g.type)), some (.string (some g.value))]

/-- The values that a function is written as. -/
inductive FunctionEntry.WrittenAs (v : Json) (f : FunctionEntry) : Prop
  | mk {name params results locals : Option Json} {body : List Json}
      (record : Record ["name", "params", "results", "locals", "body"] v
        [name, params, results, locals, some (.array body)])
      (isName : NameField name f.name) (ofParams : ListField IsText params f.params)
      (ofResults : ListField IsText results f.results) (ofLocals : ListField IsText locals f.locals)
      (lines : List.Forall₂ IsText body f.body)

/-- The values that a document is written as. -/
inductive Document.WrittenAs (v : Json) (d : Document) : Prop
  | mk {globals functions : Option Json} (record : Record ["globals", "functions"] v [globals, functions])
      (ofGlobals : ListField GlobalEntry.WrittenAs globals d.globals)
      (ofFunctions : ListField FunctionEntry.WrittenAs functions d.functions)

/-- A spelling of a document lays out the tokens of a value that the document is written as, with any blanks
between and around them. -/
def Document.Spelling (d : Document) (text : String) : Prop :=
  ∃ v : Json, d.WrittenAs v ∧ Laid v.tokens text.toList

namespace Json.Library.Documented

variable {library : Library} (documented : library.Documented)

include documented

/-- A field that must be there. -/
theorem required_eq_some_iff {α : Type} {read : Json → Option α} {field : Option Json} {a : α} :
    library.field? none read field = some a ↔ ∃ v, field = some v ∧ read v = some a := by
  cases field with
  | none => simp [documented.field?_missing]
  | some v => simp [documented.field?_held]

/-- A field that holds a list, which is empty by default. -/
theorem listField_eq_some_iff {α : Type} {read : Json → Option α} {WrittenAs : Json → α → Prop}
    (reads : ∀ v a, read v = some a ↔ WrittenAs v a) {field : Option Json} {xs : List α} :
    library.field? (some []) (library.list? read) field = some xs ↔ ListField WrittenAs field xs := by
  cases field with
  | none =>
    rw [documented.field?_missing, Option.some.injEq]
    constructor
    · rintro rfl
      exact .missing
    · intro written
      cases written
      rfl
  | some v =>
    simp only [documented.field?_held, documented.list?, reads]
    constructor
    · rintro ⟨items, rfl, each⟩
      exact .given each
    · intro written
      cases written with
      | given each => exact ⟨_, rfl, each⟩

/-- A field that holds a name, or nothing. -/
theorem nameField_eq_some_iff {field : Option Json} {name : Option String} :
    library.field? (some none) (library.optional? library.text?) field = some name ↔ NameField field name := by
  cases field with
  | none =>
    rw [documented.field?_missing, Option.some.injEq]
    constructor
    · rintro rfl
      exact .missing
    · intro isName
      cases isName
      rfl
  | some v =>
    rw [documented.field?_held]
    by_cases null : v = .null
    · subst null
      rw [documented.optional?_null, Option.some.injEq]
      constructor
      · rintro rfl
        exact .null
      · intro isName
        cases isName
        rfl
    · rw [documented.optional?_value null, Option.map_eq_some_iff]
      constructor
      · rintro ⟨text, isText, rfl⟩
        obtain rfl := documented.text?.mp isText
        exact .given
      · intro isName
        cases isName with
        | null => exact absurd rfl null
        | given => exact ⟨_, documented.text?.mpr rfl, rfl⟩

end Json.Library.Documented

namespace Document

variable {library : Library} (documented : library.Documented)

include documented

theorem globalOfJson?_eq_some_iff {v : Json} {g : GlobalEntry} :
    globalOfJson? library v = some g ↔ g.WrittenAs v := by
  simp only [globalOfJson?, bind, Option.bind_eq_some_iff, documented.fields?_eq_some_iff]
  constructor
  · rintro ⟨fields, record, read⟩
    split at read
    · simp only [Option.bind_eq_some_iff, documented.required_eq_some_iff, documented.text?] at read
      obtain ⟨type, ⟨_, rfl, rfl⟩, value, ⟨_, rfl, rfl⟩, same⟩ := read
      cases same
      exact record
    · cases read
  · intro record
    refine ⟨_, record, ?_⟩
    simp only [Option.bind_eq_some_iff, documented.required_eq_some_iff, documented.text?]
    exact ⟨_, ⟨_, rfl, rfl⟩, _, ⟨_, rfl, rfl⟩, rfl⟩

theorem functionOfJson?_eq_some_iff {v : Json} {f : FunctionEntry} :
    functionOfJson? library v = some f ↔ f.WrittenAs v := by
  have texts {field : Option Json} {xs : List String} :
      library.field? (some []) (library.list? library.text?) field = some xs ↔ ListField IsText field xs :=
    documented.listField_eq_some_iff fun _ _ => documented.text?
  simp only [functionOfJson?, bind, Option.bind_eq_some_iff, documented.fields?_eq_some_iff]
  constructor
  · rintro ⟨fields, record, read⟩
    split at read
    · simp only [Option.bind_eq_some_iff, documented.nameField_eq_some_iff, texts, documented.required_eq_some_iff,
        documented.list?, documented.text?] at read
      obtain ⟨name, isName, params, ofParams, results, ofResults, locals, ofLocals, body,
        ⟨_, rfl, lines, rfl, each⟩, same⟩ := read
      cases same
      exact ⟨record, isName, ofParams, ofResults, ofLocals, each⟩
    · cases read
  · rintro ⟨record, isName, ofParams, ofResults, ofLocals, lines⟩
    refine ⟨_, record, ?_⟩
    simp only [Option.bind_eq_some_iff, documented.nameField_eq_some_iff, texts, documented.required_eq_some_iff,
      documented.list?, documented.text?]
    exact ⟨_, isName, _, ofParams, _, ofResults, _, ofLocals, _, ⟨_, rfl, _, rfl, lines⟩, rfl⟩

theorem ofJson?_eq_some_iff {v : Json} {d : Document} : ofJson? library v = some d ↔ d.WrittenAs v := by
  have globalsRead {field : Option Json} {gs : List GlobalEntry} :
      library.field? (some []) (library.list? (globalOfJson? library)) field = some gs ↔
        ListField GlobalEntry.WrittenAs field gs :=
    documented.listField_eq_some_iff fun _ _ => globalOfJson?_eq_some_iff documented
  have functionsRead {field : Option Json} {fs : List FunctionEntry} :
      library.field? (some []) (library.list? (functionOfJson? library)) field = some fs ↔
        ListField FunctionEntry.WrittenAs field fs :=
    documented.listField_eq_some_iff fun _ _ => functionOfJson?_eq_some_iff documented
  simp only [ofJson?, bind, Option.bind_eq_some_iff, documented.fields?_eq_some_iff]
  constructor
  · rintro ⟨fields, record, read⟩
    split at read
    · simp only [Option.bind_eq_some_iff, globalsRead, functionsRead] at read
      obtain ⟨globals, ofGlobals, functions, ofFunctions, same⟩ := read
      cases same
      exact ⟨record, ofGlobals, ofFunctions⟩
    · cases read
  · rintro ⟨record, ofGlobals, ofFunctions⟩
    refine ⟨_, record, ?_⟩
    simp only [Option.bind_eq_some_iff, globalsRead, functionsRead]
    exact ⟨_, ofGlobals, _, ofFunctions, rfl⟩

/-- A document is read from its spellings and from nothing else. -/
theorem parseWith_eq_ok_iff_spelling (text : String) (d : Document) :
    parseWith library text = .ok d ↔ d.Spelling text := by
  have read : parseWith library text = .ok d ↔ library.fromText? (ofJson? library) text = some d := by
    unfold parseWith
    cases library.fromText? (ofJson? library) text <;> simp
  rw [read, documented.fromText?]
  simp only [ofJson?_eq_some_iff documented]
  exact exists_congr fun v => and_comm

omit documented in
/-- One function as an object and as an array. The member that is passed over holds a string that denotes no text. -/
theorem spelling_object_and_array : Json.library.Documented ∧
    Spelling { functions := List.replicate 2 { name := none, body := ["end"] } }
      "\x7b\"functions\":[\x7b\"body\":[\"\\u0065nd\"], \"\":[1e400, \"\\ud800\"]\x7d, [null,[],[],[],[\"end\"]]]\x7d" :=
  ⟨documented_library, (parseWith_eq_ok_iff_spelling documented_library _ _).mp (by decide +kernel)⟩

end Document

end ScopeMachine
