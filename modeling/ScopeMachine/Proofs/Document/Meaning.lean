import Mathlib.Data.List.Nodup
import Mathlib.Data.List.TakeWhile
import ScopeMachine.Proofs.Document.Loading

/-! # What a document means

Which documents describe a machine, what that machine is and why another document describes none is
said here without the way in which documents are loaded. A line refers to a function by name, whether
the function stands before or behind it; `Document.WellFormed` lists what is asked of a document,
`Document.Describes` says what its machine is like, and `Document.Refuses` gives the reason for which
a single item is refused.
-/

namespace ScopeMachine

/-- A line of two words, `call` and one that is no index, calls the function whose name the second word
is, any number of dollar signs in front of it aside. -/
structure CallsName (line name : String) : Prop where
  exists_target : ∃ target dollars, Text.words line = ["call", target] ∧ Decimal.uint32? target = none ∧
    target.toList = List.replicate dollars '$' ++ name.toList
  bare : name.toList.head? ≠ some '$'

/-- What a line stands for on a machine: a call of what is exported under the name in it, or else the
instruction that it spells. -/
def Machine.StandsFor (m : Machine) (line : String) (i : Instruction) : Prop :=
  (∀ name, CallsName line name → ∃ index, m.functionIndex? name = some index ∧ i = .call index) ∧
    ((∀ name, ¬ CallsName line name) → Instruction.parse line = .ok i)

/-- A function is what an entry says, where the machine tells what the names in it stand for. -/
structure FunctionEntry.Describes (m : Machine) (entry : FunctionEntry) (f : Function) : Prop where
  params : List.Forall₂ (fun name type => ValueType.ofName name = .ok type) entry.params f.params
  results : List.Forall₂ (fun name type => ValueType.ofName name = .ok type) entry.results f.results
  locals : List.Forall₂ (fun name type => ValueType.ofName name = .ok type) entry.locals f.locals
  /-- Each line stands for one instruction. -/
  body : List.Forall₂ m.StandsFor entry.body f.body.toList

namespace Document

/-- What is asked of a document that describes a machine. -/
structure WellFormed (d : Document) : Prop where
  globals : ∀ g ∈ d.globals, ∃ type v, ValueType.ofName g.type = .ok type ∧ Value.parse type g.value = .ok v
  /-- A line that calls a function by name calls one of the document, and any other line is an
  instruction. -/
  lines : ∀ f ∈ d.functions, ∀ line ∈ f.body,
    (∀ name, CallsName line name → ∃ callee ∈ d.functions, callee.name = some name) ∧
      ((∀ name, ¬ CallsName line name) → ∃ i, Instruction.parse line = .ok i)
  types : ∀ f ∈ d.functions, ∀ name ∈ f.params ++ f.results ++ f.locals,
    ∃ type, ValueType.ofName name = .ok type
  distinct : (d.functions.filterMap FunctionEntry.name).Nodup

/-- What the machine that a document describes is like. -/
structure Describes (d : Document) (m : Machine) : Prop where
  idle : m.frames = []
  results : m.results = []
  maxDepth : m.maxDepth = Machine.empty.maxDepth
  globals : List.Forall₂ (fun g v => ∃ type, ValueType.ofName g.type = .ok type ∧
    Value.parse type g.value = .ok v) d.globals m.globals
  functions : List.Forall₂ (FunctionEntry.Describes m) d.functions m.functions
  /-- Exported are the given names, each for the position of the function that has it. -/
  exports : ∀ name index, (name, index) ∈ m.exports ↔
    ∃ f, d.functions[index.toNat]? = some f ∧ f.name = some name
  functionIndex? : ∀ name index, m.functionIndex? name = some index ↔ (name, index) ∈ m.exports
  /-- No name is exported twice, and no function under two names. -/
  names : (m.exports.map Prod.fst).Nodup
  indices : (m.exports.map Prod.snd).Nodup

/-- The reason for which a single item of a document is refused. -/
inductive Refuses (d : Document) : Item → Malformed → Prop
  | globalType {g : GlobalEntry} {why : Malformed} (unknown : ValueType.ofName g.type = .error why) :
      Refuses d (.global g) why
  | globalValue {g : GlobalEntry} {type : ValueType} {why : Malformed}
      (known : ValueType.ofName g.type = .ok type) (refused : Value.parse type g.value = .error why) :
      Refuses d (.global g) why
  | callee {line name : String} (calls : CallsName line name)
      (unknown : ∀ f ∈ d.functions, f.name ≠ some name) : Refuses d (.line line) .unknownFunctionName
  | line {line : String} {why : Malformed} (direct : ∀ name, ¬ CallsName line name)
      (refused : Instruction.parse line = .error why) : Refuses d (.line line) why
  | type {name : String} {why : Malformed} (unknown : ValueType.ofName name = .error why) :
      Refuses d (.type name) why
  /-- A function that comes before has the same name. -/
  | name {earlier position : Nat} {f : FunctionEntry} {name : String} (before : earlier < position)
      (known : d.functions[earlier]? = some f) (same : f.name = some name) :
      Refuses d (.name position name) .duplicateExport

end Document

namespace CallsName

variable {line name other : String}

theorem bareName_eq {target : String} {dollars : Nat}
    (spelled : target.toList = List.replicate dollars '$' ++ name.toList)
    (bare : name.toList.head? ≠ some '$') : Document.bareName target = name := by
  have dropped : (List.replicate dollars '$' ++ name.toList).dropWhile (· == '$') = name.toList := by
    rw [List.dropWhile_append_of_pos (by simp)]
    cases first : name.toList with
    | nil => rfl
    | cons c rest =>
      rw [first] at bare
      have differs : c ≠ '$' := fun same => bare (same ▸ rfl)
      simp [differs]
  rw [Document.bareName, spelled, dropped, String.ofList_toList]

/-- A word is a name behind dollar signs. -/
theorem exists_replicate (target : String) : ∃ dollars,
    target.toList = List.replicate dollars '$' ++ (Document.bareName target).toList ∧
      (Document.bareName target).toList.head? ≠ some '$' := by
  have bare : (Document.bareName target).toList = target.toList.dropWhile (· == '$') :=
    String.toList_ofList
  have dollars : target.toList.takeWhile (· == '$') =
      List.replicate (target.toList.takeWhile (· == '$')).length '$' :=
    List.eq_replicate_of_mem fun c member => beq_iff_eq.mp
      (List.mem_takeWhile_imp (p := (· == '$')) member)
  refine ⟨(target.toList.takeWhile (· == '$')).length, ?_, ?_⟩
  · rw [bare, ← dollars, List.takeWhile_append_dropWhile]
  · intro first
    have stops := List.head?_dropWhile_not (· == '$') target.toList
    rw [← bare, first] at stops
    exact absurd stops (by decide)

/-- A line calls by one name at most. -/
theorem unique (one : CallsName line name) (another : CallsName line other) : name = other := by
  obtain ⟨⟨target, dollars, words, -, spelled⟩, bare⟩ := one
  obtain ⟨⟨target', dollars', words', -, spelled'⟩, bare'⟩ := another
  have same : target = target' := by simpa using words.symm.trans words'
  rw [← bareName_eq spelled bare, ← bareName_eq spelled' bare', same]

/-- A line that calls by name is looked up. -/
theorem parseLine (calls : CallsName line name) (names : List (String × UInt32)) :
    Document.parseLine names line = match names.lookup name with
      | some index => .ok (.call index)
      | none => .error .unknownFunctionName := by
  obtain ⟨⟨target, dollars, words, noIndex, spelled⟩, bare⟩ := calls
  have unnumbered : ¬ (Decimal.uint32? target).isSome = true := by
    rw [noIndex]
    exact Bool.false_ne_true
  obtain rfl := bareName_eq spelled bare
  unfold Document.parseLine
  simp only [words]
  exact if_neg unnumbered

end CallsName

/-- A line that calls nothing by name is an instruction by itself. -/
theorem Document.parseLine_of_direct {line : String} (direct : ∀ name, ¬ CallsName line name)
    (names : List (String × UInt32)) : Document.parseLine names line = Instruction.parse line := by
  unfold parseLine
  split
  · rename_i target words
    split
    · rfl
    · rename_i noIndex
      obtain ⟨dollars, spelled, bare⟩ := CallsName.exists_replicate target
      exact (direct _ ⟨⟨target, dollars, words, by simpa using noIndex, spelled⟩, bare⟩).elim
  · rfl

namespace Document

variable {d : Document}

/-- A name is known if a function of the document has it. -/
theorem lookup_names_eq_none_iff {name : String} :
    d.names.lookup name = none ↔ ∀ f ∈ d.functions, f.name ≠ some name := by
  have known : name ∈ d.names.map Prod.fst ↔ ∃ f ∈ d.functions, f.name = some name := by
    rw [names_eq, List.map_reverse, List.mem_reverse, map_fst_named, List.mem_filterMap]
  rw [← not_iff_not, ← Ne, Option.ne_none_iff_isSome]
  have found : (d.names.lookup name).isSome = true ↔ name ∈ d.names.map Prod.fst :=
    isSome_functionIndex?_iff (m := { exports := d.names })
  rw [found, known]
  simp

/-- A line is read if it calls something known by name, or else is an instruction. -/
theorem exists_parseLine_iff {line : String} :
    (∃ i, parseLine d.names line = .ok i) ↔
      (∀ name, CallsName line name → ∃ callee ∈ d.functions, callee.name = some name) ∧
        ((∀ name, ¬ CallsName line name) → ∃ i, Instruction.parse line = .ok i) := by
  by_cases named : ∃ name, CallsName line name
  · obtain ⟨name, calls⟩ := named
    have indirect : ¬ ∀ name, ¬ CallsName line name := fun direct => direct name calls
    have resolved : (∃ i, parseLine d.names line = .ok i) ↔ ¬ d.names.lookup name = none := by
      rw [calls.parseLine]
      cases d.names.lookup name <;> simp
    rw [resolved, lookup_names_eq_none_iff]
    constructor
    · intro known
      refine ⟨fun other sameLine => ?_, fun direct => (indirect direct).elim⟩
      cases sameLine.unique calls
      simpa using known
    · rintro ⟨known, -⟩ unknown
      obtain ⟨callee, member, isName⟩ := known name calls
      exact unknown callee member isName
  · have direct := not_exists.mp named
    rw [parseLine_of_direct direct]
    exact ⟨fun read => ⟨fun name calls => (direct name calls).elim, fun _ => read⟩, fun ⟨_, read⟩ => read direct⟩

theorem check_global_eq_some_iff {g : GlobalEntry} {why : Malformed} :
    d.check (.global g) = some why ↔ d.Refuses (.global g) why := by
  rw [check, refusal?_eq_some_iff, GlobalEntry.parse]
  constructor
  · intro refused
    cases known : ValueType.ofName g.type with
    | error other =>
      rw [known] at refused
      cases refused
      exact .globalType known
    | ok type =>
      rw [known] at refused
      exact .globalValue known refused
  · intro refuses
    cases refuses with
    | globalType unknown =>
      rw [unknown]
      rfl
    | globalValue known refused =>
      rw [known]
      exact refused

theorem check_line_eq_some_iff {line : String} {why : Malformed} :
    d.check (.line line) = some why ↔ d.Refuses (.line line) why := by
  rw [check, refusal?_eq_some_iff]
  constructor
  · intro refused
    by_cases named : ∃ name, CallsName line name
    · obtain ⟨name, calls⟩ := named
      rw [calls.parseLine] at refused
      cases known : d.names.lookup name with
      | some index =>
        rw [known] at refused
        cases refused
      | none =>
        rw [known] at refused
        cases refused
        exact .callee calls (lookup_names_eq_none_iff.mp known)
    · have direct := not_exists.mp named
      rw [parseLine_of_direct direct] at refused
      exact .line direct refused
  · intro refuses
    cases refuses with
    | callee calls unknown => rw [calls.parseLine, lookup_names_eq_none_iff.mpr unknown]
    | line direct refused => rw [parseLine_of_direct direct, refused]

/-- A name is taken if it is that of a function at an earlier position. -/
theorem mem_take_iff {position : Nat} {name : String} :
    name ∈ (d.functions.take position).filterMap FunctionEntry.name ↔
      ∃ earlier < position, ∃ f, d.functions[earlier]? = some f ∧ f.name = some name := by
  rw [List.mem_filterMap]
  simp only [List.mem_iff_getElem?, List.getElem?_take, Option.ite_none_right_eq_some]
  constructor
  · rintro ⟨f, ⟨earlier, before, found⟩, isName⟩
    exact ⟨earlier, before, f, found, isName⟩
  · rintro ⟨earlier, before, f, found, isName⟩
    exact ⟨f, ⟨earlier, before, found⟩, isName⟩

/-- What is refused when the document is loaded is what there is a reason to refuse. -/
theorem check_eq_some_iff {item : Item} {why : Malformed} : d.check item = some why ↔ d.Refuses item why := by
  cases item with
  | global g => exact check_global_eq_some_iff
  | line line => exact check_line_eq_some_iff
  | type name =>
    rw [check, refusal?_eq_some_iff]
    constructor
    · exact .type
    · intro refuses
      cases refuses with
      | type unknown => exact unknown
  | name position name =>
    rw [check, Option.ite_none_right_eq_some, Option.some.injEq, mem_take_iff]
    constructor
    · rintro ⟨⟨earlier, before, f, found, isName⟩, rfl⟩
      exact .name before found isName
    · intro refuses
      cases refuses with
      | name before found isName => exact ⟨⟨_, before, _, found, isName⟩, rfl⟩

/-- A function can be read if its lines and the types that it declares can be. -/
theorem exists_parse_iff {entry : FunctionEntry} {names : List (String × UInt32)} :
    (∃ f, entry.parse names = .ok f) ↔
      (∀ line ∈ entry.body, ∃ i, parseLine names line = .ok i) ∧
        ∀ name ∈ entry.params ++ entry.results ++ entry.locals, ∃ type, ValueType.ofName name = .ok type := by
  simp only [FunctionEntry.parse_eq_ok_iff, List.forall_mem_append, ← exists_forall₂_iff]
  constructor
  · rintro ⟨f, lines, ofParams, ofResults, ofLocals⟩
    exact ⟨⟨_, lines⟩, ⟨⟨_, ofParams⟩, _, ofResults⟩, _, ofLocals⟩
  · rintro ⟨⟨body, lines⟩, ⟨⟨params, ofParams⟩, results, ofResults⟩, locals, ofLocals⟩
    exact ⟨{ params, results, locals, body := body.toArray }, lines, ofParams, ofResults, ofLocals⟩

/-- A global can be read if its type and its value can be. -/
theorem parse_global_eq_ok_iff {g : GlobalEntry} {v : Value} :
    g.parse = .ok v ↔ ∃ type, ValueType.ofName g.type = .ok type ∧ Value.parse type g.value = .ok v :=
  bind_eq_ok_iff

/-- Exactly the well-formed documents describe a machine. -/
theorem exists_instantiate_iff (few : d.functions.length < UInt32.size) :
    (∃ m, d.instantiate = .ok m) ↔ d.WellFormed := by
  have parts : (∃ m, d.instantiate = .ok m) ↔
      (∀ g ∈ d.globals, ∃ v, g.parse = .ok v) ∧ (∀ f ∈ d.functions, ∃ g, f.parse d.names = .ok g) ∧
        (d.functions.filterMap FunctionEntry.name).Nodup := by
    simp only [instantiate_eq_ok_iff (Nat.le_of_lt few), ← exists_forall₂_iff]
    exact ⟨fun ⟨_, values, fs, read, parsed, distinct, _⟩ => ⟨⟨values, read⟩, ⟨fs, parsed⟩, distinct⟩,
      fun ⟨⟨values, read⟩, ⟨fs, parsed⟩, distinct⟩ => ⟨_, values, fs, read, parsed, distinct, rfl⟩⟩
  simp only [parts, exists_parse_iff, exists_parseLine_iff, parse_global_eq_ok_iff]
  constructor
  · rintro ⟨globals, functions, distinct⟩
    refine ⟨fun g member => ?_, fun f member => (functions f member).1, fun f member => (functions f member).2,
      distinct⟩
    obtain ⟨v, type, known, read⟩ := globals g member
    exact ⟨type, v, known, read⟩
  · intro wellFormed
    refine ⟨fun g member => ?_, fun f member => ⟨wellFormed.lines f member, wellFormed.types f member⟩,
      wellFormed.distinct⟩
    obtain ⟨type, v, known, read⟩ := wellFormed.globals g member
    exact ⟨v, type, known, read⟩

/-- A machine that a document describes resolves names as they are resolved in the document. -/
theorem lookup_names {m : Machine} (exports : m.exports = named 0 d.functions)
    (distinct : (d.functions.filterMap FunctionEntry.name).Nodup) {name : String} {index : UInt32} :
    d.names.lookup name = some index ↔ m.functionIndex? name = some index := by
  have once : ((named 0 d.functions).map Prod.fst).Nodup := map_fst_named 0 _ ▸ distinct
  have turned : (d.names.map Prod.fst).Nodup := by
    rw [names_eq, List.map_reverse, List.nodup_reverse]
    exact once
  rw [Machine.functionIndex?, exports, lookup_eq_some_iff_mem once, lookup_eq_some_iff_mem turned, names_eq,
    List.mem_reverse]

/-- The names of a document are exported for the positions of the functions that have them. -/
theorem mem_exports_iff {m : Machine} (few : d.functions.length < UInt32.size)
    (exports : m.exports = named 0 d.functions) {name : String} {index : UInt32} :
    (name, index) ∈ m.exports ↔ ∃ f, d.functions[index.toNat]? = some f ∧ f.name = some name := by
  rw [exports, mem_named_iff (by omega)]
  constructor
  · rintro ⟨k, f, found, position, isName⟩
    rw [Nat.zero_add] at position
    exact ⟨f, position ▸ found, isName⟩
  · rintro ⟨f, found, isName⟩
    exact ⟨index.toNat, f, found, (Nat.zero_add _).symm, isName⟩

/-- An instruction that is read from a line is what the line stands for. -/
theorem standsFor_of_parseLine {m : Machine} (exports : m.exports = named 0 d.functions)
    (distinct : (d.functions.filterMap FunctionEntry.name).Nodup) {line : String} {i : Instruction}
    (read : parseLine d.names line = .ok i) : m.StandsFor line i := by
  refine ⟨fun name calls => ?_, fun direct => parseLine_of_direct direct _ ▸ read⟩
  rw [calls.parseLine] at read
  cases known : d.names.lookup name with
  | none =>
    rw [known] at read
    cases read
  | some index =>
    rw [known] at read
    cases read
    exact ⟨index, (lookup_names exports distinct).mp known, rfl⟩

/-- The machine that is loaded is the one that the document describes. -/
theorem describes {m : Machine} (few : d.functions.length < UInt32.size) (loaded : d.instantiate = .ok m) :
    d.Describes m := by
  obtain ⟨values, fs, read, parsed, distinct, whole⟩ := (instantiate_eq_ok_iff (Nat.le_of_lt few)).mp loaded
  have exports : m.exports = named 0 d.functions := by rw [whole]
  have names : (m.exports.map Prod.fst).Nodup := by
    rw [exports, map_fst_named]
    exact distinct
  exact {
    idle := by rw [whole]
    results := by rw [whole]
    maxDepth := by
      rw [whole]
      rfl
    globals := by
      rw [whole]
      exact read.imp fun _ _ parsed => parse_global_eq_ok_iff.mp parsed
    functions := by
      have functions : m.functions = fs := by rw [whole]
      rw [functions]
      refine parsed.imp fun entry f parsed => ?_
      obtain ⟨lines, ofParams, ofResults, ofLocals⟩ := FunctionEntry.parse_eq_ok_iff.mp parsed
      exact ⟨ofParams, ofResults, ofLocals, lines.imp fun _ _ => standsFor_of_parseLine exports distinct⟩
    exports := fun _ _ => mem_exports_iff few exports
    functionIndex? := fun _ _ => lookup_eq_some_iff_mem names
    names
    indices := by
      -- Two exports of one index are exports of the same function, which has one name.
      refine (List.Nodup.of_map _ names).map_on ?_
      rintro ⟨name, index⟩ member ⟨other, _⟩ member' rfl
      obtain ⟨f, found, isName⟩ := (mem_exports_iff few exports).mp member
      obtain ⟨f', found', isName'⟩ := (mem_exports_iff few exports).mp member'
      cases found.symm.trans found'
      cases isName.symm.trans isName'
      rfl }

/-- Exactly the well-formed documents describe a machine, which is the one that they describe; any other
document fails for the first item that there is a reason to refuse. -/
theorem instantiate_meaning (d : Document) (few : d.functions.length < UInt32.size) :
    ((∃ m, d.instantiate = .ok m) ↔ d.WellFormed) ∧ (∀ m, d.instantiate = .ok m → d.Describes m) ∧
      ∀ e, d.instantiate = .error e ↔ ∃ before item after why, d.items = before ++ item :: after ∧
        (∀ earlier ∈ before, ∀ why, ¬ d.Refuses earlier why) ∧ d.Refuses item why ∧ e = .malformed why := by
  refine ⟨exists_instantiate_iff few, fun m => describes few, fun e => ?_⟩
  rw [← refusal?_eq_some_iff, refusal?_instantiate (Nat.le_of_lt few), Option.map_eq_some_iff]
  simp only [List.findSome?_eq_some_iff, Option.eq_none_iff_forall_not_mem, Option.mem_def, check_eq_some_iff]
  constructor
  · rintro ⟨why, ⟨before, item, after, whole, refused, accepted⟩, rfl⟩
    exact ⟨before, item, after, why, whole, accepted, refused, rfl⟩
  · rintro ⟨before, item, after, why, whole, accepted, refused, rfl⟩
    exact ⟨why, ⟨before, item, after, whole, refused, accepted⟩, rfl⟩

/-- Two functions that call each other by name, the first of which refers to the one behind it. -/
def evenOdd : Document where
  functions := [
    { name := some "even"
      params := ["i32"]
      results := ["i32"]
      body := [
        "local.get 0", "i32.const 0", "i32.eq",
        "if (result i32)", "i32.const 1",
        "else", "local.get 0", "i32.const 1", "i32.sub", "call $odd", "end"] },
    { name := some "odd"
      params := ["i32"]
      results := ["i32"]
      body := [
        "local.get 0", "i32.const 0", "i32.eq",
        "if (result i32)", "i32.const 0",
        "else", "local.get 0", "i32.const 1", "i32.sub", "call $even", "end"] }]

theorem exists_instantiate_evenOdd : ∃ m, evenOdd.instantiate = .ok m := by
  have accepted : evenOdd.items.findSome? evenOdd.check = none := by rfl
  rw [← refusal?_eq_none_iff, refusal?_instantiate (by decide), accepted]
  rfl

theorem instantiate_evenOdd : evenOdd.functions.length < UInt32.size ∧ evenOdd.WellFormed ∧
    ∃ m, evenOdd.instantiate = .ok m ∧ evenOdd.Describes m ∧ m.functionIndex? "odd" = some 1 := by
  have few : evenOdd.functions.length < UInt32.size := by decide
  obtain ⟨wellFormed, describes, -⟩ := instantiate_meaning evenOdd few
  obtain ⟨m, loaded⟩ := exists_instantiate_evenOdd
  refine ⟨few, wellFormed.mp ⟨m, loaded⟩, m, loaded, describes m loaded, ?_⟩
  have exported := (describes m loaded).exports "odd" 1
  exact ((describes m loaded).functionIndex? "odd" 1).mpr (exported.mpr ⟨_, rfl, rfl⟩)

end Document

end ScopeMachine
