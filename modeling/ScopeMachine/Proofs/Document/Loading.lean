import ScopeMachine.Document.Instantiate
import ScopeMachine.Proofs.Related

/-! # Loading a document

Loading adds one entry after the other to a machine. `Document.instantiate_eq_ok_iff` says when all of
them are accepted and which machine that gives, and `Document.refusal?_instantiate` says which error it
gives when one is not: the first refusal on the list of everything that is checked, in the order of the
document.
-/

namespace ScopeMachine

section
variable {ε α β : Type}

/-- Why a computation fails, if it does. -/
def refusal? : Except ε α → Option ε
  | .ok _ => none
  | .error e => some e

theorem refusal?_bind (x : Except ε α) (next : α → Except ε β) :
    refusal? (x >>= next) = match x with
      | .ok a => refusal? (next a)
      | .error e => some e := by
  cases x <;> rfl

theorem refusal?_eq_some_iff {x : Except ε α} {e : ε} : refusal? x = some e ↔ x = .error e := by
  cases x <;> simp [refusal?]

theorem refusal?_eq_none_iff {x : Except ε α} : refusal? x = none ↔ ∃ a, x = .ok a := by
  cases x <;> simp [refusal?]

/-- Reading a list stops at the first element that cannot be read. -/
theorem refusal?_mapM (read : α → Except ε β) (xs : List α) :
    refusal? (xs.mapM read) = xs.findSome? fun x => refusal? (read x) := by
  induction xs with
  | nil => rfl
  | cons x xs ih =>
    rw [List.mapM_cons, List.findSome?_cons, ← ih, refusal?_bind]
    cases read x with
    | error e => rfl
    | ok b =>
      change refusal? (xs.mapM read >>= _) = refusal? (xs.mapM read)
      cases xs.mapM read <;> rfl

end

/-- A function is determined by what it declares and by its body. -/
theorem Function.ext {f g : Function} (params : f.params = g.params) (results : f.results = g.results)
    (locals : f.locals = g.locals) (body : f.body = g.body) : f = g := by
  obtain ⟨_, _, _, _, jumps, rfl⟩ := f
  obtain ⟨_, _, _, _, jumps', rfl⟩ := g
  cases params
  cases results
  cases locals
  cases body
  rfl

theorem FunctionEntry.parse_eq_ok_iff {names : List (String × UInt32)} {entry : FunctionEntry}
    {f : Function} :
    entry.parse names = .ok f ↔
      List.Forall₂ (fun line i => Document.parseLine names line = .ok i) entry.body f.body.toList ∧
      List.Forall₂ (fun name type => ValueType.ofName name = .ok type) entry.params f.params ∧
      List.Forall₂ (fun name type => ValueType.ofName name = .ok type) entry.results f.results ∧
      List.Forall₂ (fun name type => ValueType.ofName name = .ok type) entry.locals f.locals := by
  simp only [parse, bind_eq_ok_iff, mapM_eq_ok_iff, pure, Except.pure, Except.ok.injEq]
  constructor
  · rintro ⟨body, lines, params, ofParams, results, ofResults, locals, ofLocals, rfl⟩
    exact ⟨lines, ofParams, ofResults, ofLocals⟩
  · rintro ⟨lines, ofParams, ofResults, ofLocals⟩
    exact ⟨_, lines, _, ofParams, _, ofResults, _, ofLocals, Function.ext rfl rfl rfl rfl⟩

namespace Document

/-- The names of the given functions with their indices, the first of which is given. -/
def named (first : Nat) (entries : List FunctionEntry) : List (String × UInt32) :=
  (entries.zipIdx first).filterMap fun (f, index) => f.name.map (·, .ofNat index)

theorem names_eq (d : Document) : d.names = (named 0 d.functions).reverse := rfl

theorem named_cons (first : Nat) (entry : FunctionEntry) (entries : List FunctionEntry) :
    named first (entry :: entries) =
      entry.name.toList.map (·, .ofNat first) ++ named (first + 1) entries := by
  unfold named
  rw [List.zipIdx_cons, List.filterMap_cons]
  cases named : entry.name <;> simp [named]

theorem named_append (first : Nat) (left right : List FunctionEntry) :
    named first (left ++ right) = named first left ++ named (first + left.length) right := by
  simp [named, List.zipIdx_append]

theorem map_fst_named (first : Nat) (entries : List FunctionEntry) :
    (named first entries).map Prod.fst = entries.filterMap FunctionEntry.name := by
  induction entries generalizing first with
  | nil => rfl
  | cons entry entries ih =>
    rw [named_cons, List.map_append, ih, List.filterMap_cons]
    cases entry.name <;> rfl

/-- An index stands behind a name if the entry with that index has the name. -/
theorem mem_named_iff {first : Nat} {entries : List FunctionEntry} {name : String} {index : UInt32}
    (few : first + entries.length ≤ UInt32.size) :
    (name, index) ∈ named first entries ↔
      ∃ k entry, entries[k]? = some entry ∧ index.toNat = first + k ∧ entry.name = some name := by
  induction entries generalizing first with
  | nil => simp [named]
  | cons entry entries ih =>
    rw [List.length_cons] at few
    rw [named_cons, List.mem_append, ih (by omega)]
    have here : (name, index) ∈ entry.name.toList.map (·, UInt32.ofNat first) ↔
        index.toNat = first ∧ entry.name = some name := by
      have value : (UInt32.ofNat first).toNat = first := UInt32.toNat_ofNat_of_lt' (by omega)
      cases entry.name with
      | none => simp
      | some own => simp [← UInt32.toNat_inj, value, and_comm, eq_comm]
    rw [here]
    constructor
    · rintro (⟨position, isName⟩ | ⟨k, other, found, position, isName⟩)
      · exact ⟨0, entry, rfl, position, isName⟩
      · exact ⟨k + 1, other, found, by omega, isName⟩
    · rintro ⟨k, other, found, position, isName⟩
      cases k with
      | zero =>
        cases found
        exact .inl ⟨position, isName⟩
      | succ k => exact .inr ⟨k, other, found, by omega, isName⟩

/-- Where no name is repeated, all that stands behind a name is found. -/
theorem lookup_eq_some_iff_mem {exports : List (String × UInt32)} (distinct : (exports.map Prod.fst).Nodup)
    {name : String} {index : UInt32} : exports.lookup name = some index ↔ (name, index) ∈ exports := by
  induction exports with
  | nil => simp
  | cons head rest ih =>
    obtain ⟨other, position⟩ := head
    rw [List.map_cons, List.nodup_cons] at distinct
    rw [List.lookup_cons, List.mem_cons, Prod.mk.injEq]
    by_cases same : name = other
    · subst same
      have absent : (name, index) ∉ rest := fun member =>
        distinct.1 (List.mem_map.mpr ⟨_, member, rfl⟩)
      simp [absent, eq_comm]
    · rw [beq_false_of_ne same]
      simp [same, ih distinct.2]

/-- A name is taken if something is exported under it. -/
theorem isSome_functionIndex?_iff {m : Machine} {name : String} :
    (m.functionIndex? name).isSome = true ↔ name ∈ m.exports.map Prod.fst := by
  have same (export_ : String × UInt32) : (name == export_.1) = true ↔ export_.1 = name :=
    beq_iff_eq.trans eq_comm
  simp only [Machine.functionIndex?, List.lookup_isSome_iff, List.mem_map, same]

/-- What loading comes to: a machine, or the reason why there is none. -/
def outcome : EStateM.Result Error Machine Unit → Except Error Machine
  | .ok _ m => .ok m
  | .error e _ => .error e

/-- Actions one after the other hand the machine on. -/
theorem outcome_forM {α : Type} (add : α → Machine.Action Unit) (xs : List α) (m : Machine) :
    outcome (xs.forM add m) = xs.foldlM (fun m x => outcome (add x m)) m := by
  induction xs generalizing m with
  | nil => rfl
  | cons x xs ih =>
    rw [List.foldlM_cons]
    change outcome ((add x >>= fun _ => xs.forM add) m) = _
    simp only [bind, EStateM.bind]
    cases add x m with
    | ok _ m => exact ih m
    | error e m => rfl

theorem instantiate_eq (d : Document) :
    d.instantiate = (d.globals.foldlM (fun m g => outcome (addGlobal g m)) .empty >>= fun m =>
      d.functions.foldlM (fun m f => outcome (addFunction d.names f m)) m) := by
  have globals := outcome_forM addGlobal d.globals .empty
  simp only [← outcome_forM]
  change outcome ((d.globals.forM addGlobal >>= fun _ => d.functions.forM (addFunction d.names)) .empty) = _
  simp only [bind, EStateM.bind]
  cases d.globals.forM addGlobal .empty <;> rfl

theorem outcome_addGlobal (g : GlobalEntry) (m : Machine) :
    outcome (addGlobal g m) = match g.parse with
      | .ok v => .ok { m with globals := m.globals ++ [v] }
      | .error why => .error (.malformed why) := by
  unfold addGlobal
  cases parsed : g.parse <;> rfl

/-- Unless its name is taken, a function is added that can be read. -/
theorem outcome_addFunction {names : List (String × UInt32)} {entry : FunctionEntry} {m : Machine}
    (room : m.functions.length < UInt32.size) :
    outcome (addFunction names entry m) = match entry.parse names with
      | .ok f =>
        if ∃ name ∈ entry.name, name ∈ m.exports.map Prod.fst then .error (.malformed .duplicateExport)
        else .ok { m with
          functions := m.functions ++ [f]
          exports := m.exports ++ named m.functions.length [entry] }
      | .error why => .error (.malformed why) := by
  unfold addFunction
  cases parsed : entry.parse names with
  | error why => rfl
  | ok f =>
    have index : (UInt32.ofNat m.functions.length).toNat = m.functions.length :=
      UInt32.toNat_ofNat_of_lt' room
    cases isName : entry.name with
    | none =>
      simp only [named, List.zipIdx_cons, List.filterMap_cons, isName]
      simp
      rfl
    | some name =>
      have known : ¬ (m.functions ++ [f]).length ≤ (UInt32.ofNat m.functions.length).toNat := by
        rw [index, List.length_append]
        exact Nat.not_succ_le_self _
      have taken : (Machine.functionIndex? name { m with functions := m.functions ++ [f] }).isSome = true ↔ _ :=
        isSome_functionIndex?_iff
      change outcome (Machine.addExport name _ _) = _
      simp only [Machine.addExport, known, ↓reduceIte, taken, named_cons, isName]
      simp only [Option.mem_def, Option.some.injEq, exists_eq_left']
      split <;> rfl

theorem foldlM_addGlobal_eq_ok_iff {gs : List GlobalEntry} {m m' : Machine} :
    gs.foldlM (fun m g => outcome (addGlobal g m)) m = .ok m' ↔
      ∃ values, List.Forall₂ (fun g v => GlobalEntry.parse g = .ok v) gs values ∧
        m' = { m with globals := m.globals ++ values } := by
  induction gs generalizing m with
  | nil => simp [pure, Except.pure, eq_comm]
  | cons g gs ih =>
    rw [List.foldlM_cons, outcome_addGlobal]
    simp only [List.forall₂_cons_left_iff]
    cases g.parse with
    | error why => simp [bind, Except.bind]
    | ok v =>
      change gs.foldlM _ _ = _ ↔ _
      rw [ih]
      simp

theorem filterMap_name_cons (entry : FunctionEntry) (entries : List FunctionEntry) :
    (entry :: entries).filterMap FunctionEntry.name =
      entry.name.toList ++ entries.filterMap FunctionEntry.name := by
  rw [List.filterMap_cons]
  cases entry.name <;> rfl

/-- All functions are added if each of them can be read and no two have the same name. -/
theorem foldlM_addFunction_eq_ok_iff {names : List (String × UInt32)} {entries : List FunctionEntry}
    {m m' : Machine} (room : m.functions.length + entries.length ≤ UInt32.size)
    (distinct : (m.exports.map Prod.fst).Nodup) :
    entries.foldlM (fun m entry => outcome (addFunction names entry m)) m = .ok m' ↔
      ∃ fs, List.Forall₂ (fun entry f => FunctionEntry.parse names entry = .ok f) entries fs ∧
        (m.exports.map Prod.fst ++ entries.filterMap FunctionEntry.name).Nodup ∧
        m' = { m with
          functions := m.functions ++ fs
          exports := m.exports ++ named m.functions.length entries } := by
  induction entries generalizing m with
  | nil => simp [pure, Except.pure, eq_comm, distinct, named]
  | cons entry entries ih =>
    rw [List.length_cons] at room
    rw [List.foldlM_cons, outcome_addFunction (by omega), filterMap_name_cons]
    simp only [List.forall₂_cons_left_iff]
    cases entry.parse names with
    | error why => simp [bind, Except.bind]
    | ok f =>
      dsimp only
      split
      · rename_i taken
        obtain ⟨name, own, other⟩ := taken
        have twice : ¬ (m.exports.map Prod.fst ++
            (entry.name.toList ++ entries.filterMap FunctionEntry.name)).Nodup := fun nodup =>
          (List.nodup_append.mp nodup).2.2 name other name
            (List.mem_append_left _ (Option.mem_toList.mpr own)) rfl
        simp [bind, Except.bind, twice]
      · rename_i fresh
        have names_ : (m.exports ++ named m.functions.length [entry]).map Prod.fst =
            m.exports.map Prod.fst ++ entry.name.toList := by
          rw [List.map_append, map_fst_named, filterMap_name_cons]
          exact congrArg _ (List.append_nil _)
        have further : m.exports ++ named m.functions.length (entry :: entries) =
            m.exports ++ named m.functions.length [entry] ++ named (m.functions.length + 1) entries := by
          rw [List.append_assoc, named_cons, named_cons]
          simp [named]
        have nodup : (m.exports.map Prod.fst ++ entry.name.toList).Nodup := by
          refine List.nodup_append.mpr ⟨distinct, ?_, ?_⟩
          · cases entry.name <;> simp
          · rintro name other _ own rfl
            exact fresh ⟨name, Option.mem_toList.mp own, other⟩
        change entries.foldlM _ _ = _ ↔ _
        rw [ih (by simp; omega) (names_ ▸ nodup), names_, further]
        simp

/-- A document describes a machine if all it lists can be read and no two functions have the same name; the
machine then holds what has been read, in the order of the document. -/
theorem instantiate_eq_ok_iff {d : Document} {m : Machine} (few : d.functions.length ≤ UInt32.size) :
    d.instantiate = .ok m ↔
      ∃ values fs, List.Forall₂ (fun g v => GlobalEntry.parse g = .ok v) d.globals values ∧
        List.Forall₂ (fun entry f => FunctionEntry.parse d.names entry = .ok f) d.functions fs ∧
        (d.functions.filterMap FunctionEntry.name).Nodup ∧
        m = { globals := values, functions := fs, exports := named 0 d.functions } := by
  have loads (values : List Value) :
      d.functions.foldlM (fun m entry => outcome (addFunction d.names entry m)) { globals := values } = .ok m ↔
        _ :=
    foldlM_addFunction_eq_ok_iff (by simpa using few) List.nodup_nil
  rw [instantiate_eq, bind_eq_ok_iff]
  simp only [foldlM_addGlobal_eq_ok_iff]
  constructor
  · rintro ⟨_, ⟨values, read, rfl⟩, loaded⟩
    obtain ⟨fs, parsed, distinct, rfl⟩ := (loads values).mp loaded
    exact ⟨values, fs, read, parsed, distinct, rfl⟩
  · rintro ⟨values, fs, read, parsed, distinct, whole⟩
    exact ⟨_, ⟨values, read, rfl⟩, (loads values).mpr ⟨fs, parsed, distinct, whole⟩⟩

/-- What every addition keeps holds of all that is loaded. -/
theorem foldlM_preserves {α : Type} {add : Machine → α → Except Error Machine} {P : Machine → Prop}
    (keeps : ∀ m x m', add m x = .ok m' → P m → P m') {xs : List α} {m m' : Machine}
    (loaded : xs.foldlM add m = .ok m') (initial : P m) : P m' := by
  induction xs generalizing m with
  | nil =>
    cases loaded
    exact initial
  | cons x xs ih =>
    rw [List.foldlM_cons, bind_eq_ok_iff] at loaded
    obtain ⟨next, added, loaded⟩ := loaded
    exact ih loaded (keeps m x next added initial)

/-- An idle machine that exports nothing but functions that it has. -/
structure Ready (m : Machine) : Prop where
  idle : m.frames = []
  exports : ∀ named ∈ m.exports, named.2.toNat < m.functions.length

theorem Ready.addGlobal {g : GlobalEntry} {m m' : Machine} (ready : Ready m)
    (added : outcome (addGlobal g m) = .ok m') : Ready m' := by
  rw [outcome_addGlobal] at added
  cases parsed : g.parse with
  | error why =>
    rw [parsed] at added
    cases added
  | ok v =>
    rw [parsed] at added
    cases added
    exact ⟨ready.idle, ready.exports⟩

theorem Ready.addFunction {names : List (String × UInt32)} {entry : FunctionEntry} {m m' : Machine} (ready : Ready m)
    (added : outcome (addFunction names entry m) = .ok m') : Ready m' := by
  have grown : ∀ named ∈ m.exports, named.2.toNat < m.functions.length + 1 := fun named member =>
    Nat.lt_succ_of_lt (ready.exports named member)
  unfold Document.addFunction at added
  cases parsed : entry.parse names with
  | error why =>
    rw [parsed] at added
    cases added
  | ok f =>
    rw [parsed] at added
    cases isName : entry.name with
    | none =>
      rw [isName] at added
      cases added
      exact ⟨ready.idle, by simpa using grown⟩
    | some name =>
      rw [isName] at added
      change outcome (Machine.addExport name _ _) = _ at added
      unfold Machine.addExport at added
      split_ifs at added with unknown taken
      · cases added
      · cases added
      · cases added
        refine ⟨ready.idle, fun named member => ?_⟩
        rcases List.mem_append.mp member with old | new
        · simpa using grown named old
        · obtain rfl := List.mem_singleton.mp new
          exact Nat.lt_of_not_le unknown

/-- A machine that has been loaded is ready, however many functions it has. -/
theorem ready_of_instantiate {d : Document} {m : Machine} (loaded : d.instantiate = .ok m) : Ready m := by
  rw [instantiate_eq, bind_eq_ok_iff] at loaded
  obtain ⟨middle, globals, functions⟩ := loaded
  have initial : Ready .empty := ⟨rfl, List.forall_mem_nil _⟩
  have ready : Ready middle := foldlM_preserves (fun _ _ _ added ready => ready.addGlobal added) globals initial
  exact foldlM_preserves (fun _ _ _ added ready => ready.addFunction added) functions ready

/-- Something that a document is checked for. -/
inductive Item where
  | global (g : GlobalEntry)
  /-- A line of a body. -/
  | line (text : String)
  /-- The name of a type that a function declares. -/
  | type (name : String)
  /-- The name of the function at a position. -/
  | name (position : Nat) (name : String)
  deriving DecidableEq, Repr

/-- What is checked of the function at a position, in the order in which it is. -/
def functionItems (position : Nat) (f : FunctionEntry) : List Item :=
  f.body.map .line ++ (f.params ++ f.results ++ f.locals).map .type ++ f.name.toList.map (.name position)

/-- All that is checked, in the order in which it is. -/
def items (d : Document) : List Item :=
  d.globals.map .global ++ d.functions.zipIdx.flatMap fun (f, position) => functionItems position f

/-- Why something is refused, if it is. -/
def check (d : Document) : Item → Option Malformed
  | .global g => refusal? g.parse
  | .line text => refusal? (parseLine d.names text)
  | .type name => refusal? (ValueType.ofName name)
  | .name position name =>
    if name ∈ (d.functions.take position).filterMap FunctionEntry.name then some .duplicateExport else none

theorem refusal?_parse (d : Document) (entry : FunctionEntry) :
    refusal? (entry.parse d.names) =
      (entry.body.map Item.line ++
        (entry.params ++ entry.results ++ entry.locals).map Item.type).findSome? d.check := by
  have lines : refusal? (entry.body.mapM (parseLine d.names)) =
      (entry.body.map Item.line).findSome? d.check := by
    rw [refusal?_mapM, List.findSome?_map]
    rfl
  have types (names : List String) :
      refusal? (names.mapM ValueType.ofName) = (names.map Item.type).findSome? d.check := by
    rw [refusal?_mapM, List.findSome?_map]
    rfl
  simp only [List.map_append, List.findSome?_append, ← lines, ← types, FunctionEntry.parse]
  cases entry.body.mapM (parseLine d.names) with
  | error why => rfl
  | ok body =>
    cases entry.params.mapM ValueType.ofName with
    | error why => rfl
    | ok params =>
      cases entry.results.mapM ValueType.ofName with
      | error why => rfl
      | ok results => cases entry.locals.mapM ValueType.ofName <;> rfl

theorem refusal?_foldlM_addGlobal (d : Document) (gs : List GlobalEntry) (m : Machine) :
    refusal? (gs.foldlM (fun m g => outcome (addGlobal g m)) m) =
      ((gs.map .global).findSome? d.check).map .malformed := by
  induction gs generalizing m with
  | nil => rfl
  | cons g gs ih =>
    have first : d.check (.global g) = refusal? g.parse := rfl
    rw [List.foldlM_cons, outcome_addGlobal, List.map_cons, List.findSome?_cons, first]
    cases g.parse with
    | error why => rfl
    | ok v => exact ih _

/-- Functions are refused for the first thing that is wrong with any of them, given the functions that have
been added before. -/
theorem refusal?_foldlM_addFunction {d : Document} (few : d.functions.length ≤ UInt32.size)
    {done rest : List FunctionEntry} (whole : d.functions = done ++ rest) {m : Machine}
    (length : m.functions.length = done.length) (exports : m.exports = named 0 done) :
    refusal? (rest.foldlM (fun m f => outcome (addFunction d.names f m)) m) =
      (((rest.zipIdx done.length).flatMap fun (f, position) => functionItems position f).findSome? d.check).map
        .malformed := by
  induction rest generalizing done m with
  | nil => rfl
  | cons entry rest ih =>
    have room : m.functions.length < UInt32.size := by
      rw [whole, List.length_append, List.length_cons] at few
      omega
    have before : d.functions.take done.length = done := by
      rw [whole, List.take_left]
    have named_ : (entry.name.toList.map (Item.name done.length)).findSome? d.check =
        if ∃ name ∈ entry.name, name ∈ m.exports.map Prod.fst then some .duplicateExport else none := by
      rw [exports, map_fst_named]
      cases entry.name with
      | none => simp
      | some name => simp [check, before]
    rw [List.foldlM_cons, outcome_addFunction room, List.zipIdx_cons, List.flatMap_cons, List.findSome?_append]
    change _ = ((List.findSome? d.check (_ ++ _ ++ _)).or _).map _
    rw [List.findSome?_append, ← refusal?_parse, named_]
    cases entry.parse d.names with
    | error why => rfl
    | ok f =>
      dsimp only
      split
      · rfl
      · have added : (m.functions ++ [f]).length = (done ++ [entry]).length := by simp [length]
        have listed : m.exports ++ named m.functions.length [entry] = named 0 (done ++ [entry]) := by
          rw [exports, length, named_append, Nat.zero_add]
        have split : d.functions = (done ++ [entry]) ++ rest := whole.trans (List.append_cons ..)
        have further := ih split (m := { m with functions := _, exports := _ }) added listed
        rw [List.length_append] at further
        exact further

/-- The first thing on the list that is refused decides the error. -/
theorem refusal?_instantiate {d : Document} (few : d.functions.length ≤ UInt32.size) :
    refusal? d.instantiate = (d.items.findSome? d.check).map .malformed := by
  have globals := refusal?_foldlM_addGlobal d d.globals .empty
  have functions (values : List Value) :
      refusal? (d.functions.foldlM (fun m f => outcome (addFunction d.names f m)) { globals := values }) = _ :=
    refusal?_foldlM_addFunction few (List.nil_append _).symm rfl rfl
  rw [instantiate_eq, items, List.findSome?_append, refusal?_bind]
  cases loaded : d.globals.foldlM (fun m g => outcome (addGlobal g m)) .empty with
  | error e =>
    rw [loaded] at globals
    obtain ⟨why, found, rfl⟩ := Option.map_eq_some_iff.mp globals.symm
    rw [found]
    rfl
  | ok m =>
    obtain ⟨values, -, rfl⟩ := foldlM_addGlobal_eq_ok_iff.mp loaded
    rw [loaded] at globals
    rw [Option.map_eq_none_iff.mp globals.symm]
    exact functions values

end Document

end ScopeMachine
