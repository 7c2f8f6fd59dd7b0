import ScopeMachine.CommandLine
import ScopeMachine.Proofs.Document.Meaning
import ScopeMachine.Proofs.Tool.Run

/-! # Exports in listings

The run tool lists the exports of a program, and the inspect tool its exported functions. The first sorts the exports
by index, the second goes through the functions and searches the exports for each of them; both come to the named
functions of the document, in its order (`Document.listed`), in whatever order the machine keeps its exports
(`Tool.report_exports`).
-/

namespace ScopeMachine

namespace Document

variable {d : Document} {k : Nat} {name : String}

/-- The name of the function at a position. -/
def nameAt? (d : Document) (k : Nat) : Option String := d.functions[k]?.bind FunctionEntry.name

/-- The positions and the names of all named functions, from the first to the last. -/
def listed (d : Document) : List (Nat × String) :=
  (List.range d.functions.length).filterMap fun k => (d.nameAt? k).map (k, ·)

theorem nameAt?_eq_some_iff : d.nameAt? k = some name ↔ ∃ f, d.functions[k]? = some f ∧ f.name = some name :=
  Option.bind_eq_some_iff

theorem mem_listed_iff : (k, name) ∈ d.listed ↔ d.nameAt? k = some name := by
  simp only [listed, List.mem_filterMap, List.mem_range, Option.map_eq_some_iff, Prod.mk.injEq]
  constructor
  · rintro ⟨k, -, name, isName, rfl, rfl⟩
    exact isName
  · intro isName
    obtain ⟨f, known, -⟩ := nameAt?_eq_some_iff.mp isName
    exact ⟨k, (List.getElem?_eq_some_iff.mp known).1, name, isName, rfl, rfl⟩

theorem lt_of_mem_listed {entry : Nat × String} (member : entry ∈ d.listed) : entry.1 < d.functions.length := by
  obtain ⟨f, known, -⟩ := nameAt?_eq_some_iff.mp (mem_listed_iff.mp member)
  exact (List.getElem?_eq_some_iff.mp known).1

theorem pairwise_listed (d : Document) : d.listed.Pairwise fun a b => a.1 < b.1 := by
  refine List.pairwise_filterMap.mpr (List.pairwise_lt_range.imp fun {k j} less a isA b isB => ?_)
  obtain ⟨name, -, rfl⟩ := Option.map_eq_some_iff.mp isA
  obtain ⟨other, -, rfl⟩ := Option.map_eq_some_iff.mp isB
  exact less

end Document

namespace Tool

open Document Session

/-- The line of an export up to its types. -/
def heading (k : Nat) (name : String) : String := s!"  [{k}] {name} ("

/-- The types that the run tool shows of an export. -/
def signature (f : Function) : String :=
  let params := s!"{ValueType.list f.params})"
  if f.results.isEmpty then params else params ++ s!" -> {ValueType.list f.results}"

/-- The types that the inspect tool shows of a function. -/
def declaration (f : Function) : String :=
  s!"{ValueType.list f.params}) -> ({ValueType.list f.results})" ++ s!" locals: ({ValueType.list f.locals})"

theorem exportLine_eq (m : Machine) (name : String) (index : UInt32) :
    exportLine m name index = heading index.toNat name ++ signature (m.functions[index.toNat]?.getD default) := by
  have numeral : toString index = toString index.toNat := rfl
  unfold exportLine heading signature
  dsimp only
  split <;> simp only [numeral, String.append_assoc]

theorem functionLine_eq (k : Nat) (name : String) (f : Function) :
    functionLine k (some name) f = heading k name ++ declaration f := by
  simp only [functionLine, heading, declaration, Option.getD_some, String.append_assoc]

/-- The line of each named function, as the run tool shows it. -/
def runLines (d : Document) (m : Machine) : List String :=
  d.listed.map fun (k, name) => heading k name ++ signature (m.functions[k]?.getD default)

/-- The line of each named function, as the inspect tool shows it. -/
def inspectLines (d : Document) (m : Machine) : List String :=
  d.listed.map fun (k, name) => heading k name ++ declaration (m.functions[k]?.getD default)

section Order
variable {d : Document} {m : Machine} {order : List (String × UInt32)} {name : String} {index : UInt32}

theorem mem_order_iff (described : d.Describes m) (perm : order.Perm m.exports) :
    (name, index) ∈ order ↔ d.nameAt? index.toNat = some name :=
  perm.mem_iff.trans ((described.exports name index).trans nameAt?_eq_some_iff.symm)

/-- Sorted by index, the exports are the named functions of the document. -/
theorem mergeSort_order (few : d.functions.length < UInt32.size) (described : d.Describes m)
    (perm : order.Perm m.exports) : (order.mergeSort fun a b => a.2 ≤ b.2) =
      d.listed.map fun (k, name) => (name, UInt32.ofNat k) := by
  have value {entry : Nat × String} (member : entry ∈ d.listed) : (UInt32.ofNat entry.1).toNat = entry.1 :=
    UInt32.toNat_ofNat_of_lt' (Nat.lt_trans (lt_of_mem_listed member) few)
  have listedSorted : (d.listed.map fun (k, name) => (name, UInt32.ofNat k)).Pairwise fun a b => a.2 < b.2 := by
    refine List.pairwise_map.mpr (d.pairwise_listed.imp_of_mem fun {a b} inA inB less => ?_)
    rw [UInt32.lt_iff_toNat_lt, value inA, value inB]
    exact less
  have sorted : (order.mergeSort fun a b => a.2 ≤ b.2).Pairwise fun a b => a.2 ≤ b.2 := by
    have result : (order.mergeSort fun a b => a.2 ≤ b.2).Pairwise fun a b => decide (a.2 ≤ b.2) = true :=
      List.pairwise_mergeSort (by simpa using fun _ _ _ => UInt32.le_trans)
        (by simpa using fun _ _ => UInt32.le_total _ _) order
    simpa only [decide_eq_true_eq] using result
  have once : (d.listed.map fun (k, name) => (name, UInt32.ofNat k)).Nodup := by
    refine listedSorted.imp ?_
    rintro a _ less rfl
    exact UInt32.lt_irrefl _ less
  have permutation : (order.mergeSort fun a b => a.2 ≤ b.2).Perm
      (d.listed.map fun (k, name) => (name, UInt32.ofNat k)) := by
    refine (List.mergeSort_perm order _).trans ?_
    refine (List.perm_ext_iff_of_nodup (perm.nodup_iff.mpr (.of_map _ described.names)) once).mpr ?_
    rintro ⟨name, index⟩
    rw [mem_order_iff described perm, ← mem_listed_iff, List.mem_map]
    constructor
    · intro member
      exact ⟨_, member, Prod.ext rfl UInt32.ofNat_toNat⟩
    · rintro ⟨⟨k, name⟩, member, same⟩
      obtain ⟨rfl, rfl⟩ := Prod.mk.inj same
      rwa [value member]
  -- Two exports of the same index are the same, so there is only one order.
  refine List.Perm.eq_of_pairwise ?_ sorted (listedSorted.imp UInt32.le_of_lt) permutation
  rintro ⟨name, index⟩ ⟨other, _⟩ inSorted inListed le ge
  obtain rfl := UInt32.le_antisymm le ge
  have first := (mem_order_iff described perm).mp ((List.mergeSort_perm order _).mem_iff.mp inSorted)
  have second := (mem_order_iff described perm).mp
    ((List.mergeSort_perm order _).mem_iff.mp (permutation.mem_iff.mpr inListed))
  rw [Option.some.inj (first.symm.trans second)]

theorem exportName?_eq (few : d.functions.length < UInt32.size) (described : d.Describes m)
    (perm : order.Perm m.exports) (k : Nat) : exportName? { m with exports := order } k = d.nameAt? k := by
  have search : exportName? { m with exports := order } k =
      (order.find? fun entry => entry.2.toNat == k).map Prod.fst := rfl
  rw [search]
  cases found : order.find? fun entry => entry.2.toNat == k with
  | some entry =>
    have position := List.find?_some found
    have named := (mem_order_iff described perm).mp (List.mem_of_find?_eq_some found)
    rw [beq_iff_eq.mp position] at named
    exact named.symm
  | none =>
    cases isName : d.nameAt? k with
    | none => rfl
    | some name =>
      have small := Nat.lt_trans (lt_of_mem_listed (mem_listed_iff.mpr isName)) few
      have value : (UInt32.ofNat k).toNat = k := UInt32.toNat_ofNat_of_lt' small
      have member : (name, UInt32.ofNat k) ∈ order := (mem_order_iff described perm).mpr (by rwa [value])
      have other := List.find?_eq_none.mp found _ member
      exact (other (beq_iff_eq.mpr value)).elim

/-- The lines of the run tool. -/
theorem exportLines_eq (few : d.functions.length < UInt32.size) (described : d.Describes m)
    (perm : order.Perm m.exports) : exportLines { m with exports := order } = runLines d m := by
  rw [exportLines, mergeSort_order few described perm, List.map_map]
  refine List.map_congr_left fun (k, name) member => ?_
  have value : (UInt32.ofNat k).toNat = k := UInt32.toNat_ofNat_of_lt' (Nat.lt_trans (lt_of_mem_listed member) few)
  exact (exportLine_eq _ _ _).trans (by rw [value])

/-- Elements with their positions. -/
theorem zipIdx_eq_map_range {α : Type} [Inhabited α] (xs : List α) :
    xs.zipIdx = (List.range xs.length).map fun k => (xs[k]?.getD default, k) := by
  refine List.ext_getElem (by simp) fun k inside _ => ?_
  have bound : k < xs.length := by simpa using inside
  simp [bound]

/-- The lines of the inspect tool. -/
theorem machineLines_eq (few : d.functions.length < UInt32.size) (described : d.Describes m)
    (perm : order.Perm m.exports) {options : InspectOptions} (only : options.exportsOnly = true) :
    machineLines options { m with exports := order } =
      (s!"Functions ({d.functions.length}):" :: inspectLines d m).map some := by
  have length : m.functions.length = d.functions.length := described.functions.length_eq.symm
  have lines (k : Nat) (f : Function) : functionLines options k (d.nameAt? k) f =
      ((d.nameAt? k).map fun name => some (heading k name ++ declaration f)).toList := by
    cases isName : d.nameAt? k with
    | none => simp [functionLines, only]
    | some name => simp [functionLines, only, functionLine_eq]
  simp only [machineLines, only, exportName?_eq few described perm, lines, ↓reduceIte, List.nil_append, length]
  rw [zipIdx_eq_map_range, List.flatMap_map, ← List.filterMap_eq_flatMap_toList, length, List.map_cons, inspectLines,
    List.map_map, listed, List.map_filterMap]
  simp only [Option.map_map]
  rfl

end Order

section Reports
variable {text : String} {d : Document} {m : Machine}

theorem report_listExports (parsed : Document.parse text = .ok d) (loaded : d.instantiate = .ok m) (path : String)
    {options : RunOptions} (lists : options.listExports = true) :
    (Command.report (.ok text) (.run path options)).code = 0 ∧
      (Command.report (.ok text) (.run path options)).out =
        Session.text ("Exported functions:" :: exportLines m).toArray := by
  have traceable : Traceable options (.ok text) := by
    intro started begins
    cases begins with
    | intro runs => exact absurd runs (by simp [lists])
  have same : seen ((run path options (.ok text)).run {}) = seen ((run path options.silent (.ok text)).run {}) :=
    alike_run path false (.inr traceable) {} {} rfl
  have noNote (line : String) : noteIf options.silent.debug line = pure () := rfl
  have lists : options.silent.listExports = true := lists
  have whole : run path options.silent (.ok text) {} =
      .ok () { out := #["Exported functions:"] ++ (exportLines m).map id } := by
    simp only [run, lists, noNote, pure_bind, ↓reduceIte]
    simp only [bind, EStateM.bind, loadProgram_ok parsed loaded]
    exact forM_say id (exportLines m) { out := #["Exported functions:"] }
  have ended : seen (run path options.silent (.ok text) {}) =
      (.ok (), ("Exported functions:" :: exportLines m).toArray) := by
    rw [whole]
    simp [seen]
  exact report_of_done (same.trans ended)

theorem report_inspect (parsed : Document.parse text = .ok d) (loaded : d.instantiate = .ok m) (path : String)
    (options : InspectOptions) : Command.report (.ok text) (.inspect path options) =
      Session.listing (some s!"Program: {path}" :: some "" :: machineLines options m) := by
  refine report_of_listing (s := inspect path options (.ok text)) ?_
  simp only [EStateM.run, inspect, bind, EStateM.bind, loadProgram_ok parsed loaded]
  rfl

end Reports

/-- Both tools have one entry for each named function of a document that can be loaded, by increasing index and with
the same indices and names, in whatever order the machine keeps its exports. -/
theorem report_exports {text : String} {d : Document} {m : Machine} (few : d.functions.length < UInt32.size)
    (parsed : Document.parse text = .ok d) (loaded : d.instantiate = .ok m) :
    (d.listed.Pairwise fun a b => a.1 < b.1) ∧
      (∀ k name, (k, name) ∈ d.listed ↔ ∃ f, d.functions[k]? = some f ∧ f.name = some name) ∧
      (∀ order, order.Perm m.exports → exportLines { m with exports := order } = runLines d m ∧
        ∀ options : InspectOptions, options.exportsOnly = true → machineLines options { m with exports := order } =
          (s!"Functions ({d.functions.length}):" :: inspectLines d m).map some) ∧
      (∀ path (options : RunOptions), options.listExports = true →
        (Command.report (.ok text) (.run path options)).code = 0 ∧
          (Command.report (.ok text) (.run path options)).out =
            Session.text ("Exported functions:" :: runLines d m).toArray) ∧
      ∀ path (options : InspectOptions), options.exportsOnly = true →
        Command.report (.ok text) (.inspect path options) =
          { out := Session.text (s!"Program: {path}" :: "" :: s!"Functions ({d.functions.length}):" ::
              inspectLines d m).toArray } := by
  have described := describes few loaded
  have runs {order : List (String × UInt32)} (perm : order.Perm m.exports) :
      exportLines { m with exports := order } = runLines d m := exportLines_eq few described perm
  have inspects {order : List (String × UInt32)} (perm : order.Perm m.exports) {options : InspectOptions}
      (only : options.exportsOnly = true) : machineLines options { m with exports := order } =
        (s!"Functions ({d.functions.length}):" :: inspectLines d m).map some :=
    machineLines_eq few described perm only
  refine ⟨d.pairwise_listed, fun k name => mem_listed_iff.trans nameAt?_eq_some_iff,
    fun order perm => ⟨runs perm, fun options only => inspects perm only⟩, fun path options lists => ?_,
    fun path options only => ?_⟩
  · have report := report_listExports parsed loaded path lists
    rwa [← runs (.refl m.exports)]
  · rw [report_inspect parsed loaded, inspects (.refl m.exports) only, ← listing_map_some]
    rfl

/-- The text of a program with two exported functions and one in between that has no name. -/
def gapText : String :=
  "\x7b\"functions\": [\x7b\"name\": \"b\", \"body\": []\x7d, \x7b\"body\": []\x7d, " ++
    "\x7b\"name\": \"a\", \"body\": []\x7d]\x7d"

def gap : Document where
  functions := [{ name := some "b", body := [] }, { body := [] }, { name := some "a", body := [] }]

/-- The first function comes first, also if its export does not. -/
theorem report_exports_gap :
    exportLines { functions := [{}, {}, {}], exports := [("a", 2), ("b", 0)] } = ["  [0] b ()", "  [2] a ()"] ∧
      (Command.report (.ok gapText) (.run "gap.json" { listExports := true })).out =
        "Exported functions:\n  [0] b ()\n  [2] a ()\n" ∧
      (Command.report (.ok gapText) (.inspect "gap.json" { exportsOnly := true })).out =
        "Program: gap.json\n\nFunctions (3):\n  [0] b () -> () locals: ()\n  [2] a () -> () locals: ()\n" := by
  have parsed : Document.parse gapText = .ok gap := by decide +kernel
  have loaded : gap.instantiate = .ok { functions := [{}, {}, {}], exports := [("b", 0), ("a", 2)] } := by decide +kernel
  have few : gap.functions.length < UInt32.size := by decide
  obtain ⟨-, -, orders, runs, inspects⟩ := report_exports few parsed loaded
  exact ⟨((orders _ (.swap ..)).1).trans (by decide +kernel), ((runs _ _ rfl).2).trans (by decide +kernel),
    (congrArg Report.out (inspects _ _ rfl)).trans (by decide +kernel)⟩

/-- Functions without a name, as many as given, and one with a name behind them. -/
def crowd (n : Nat) : Document where
  functions := List.replicate n { body := [] } ++ [{ name := some "f", body := [] }]

theorem nameAt?_crowd {n k : Nat} : (crowd n).nameAt? k = if k = n then some "f" else none := by
  have length : (List.replicate n ({ body := [] } : FunctionEntry)).length = n := List.length_replicate
  rw [nameAt?, crowd]
  rcases Nat.lt_trichotomy k n with before | rfl | behind
  · rw [List.getElem?_append_left (by rwa [length]), List.getElem?_replicate_of_lt before, if_neg (Nat.ne_of_lt before)]
    rfl
  · rw [List.getElem?_append_right (Nat.le_of_eq length), length, Nat.sub_self, if_pos rfl]
    rfl
  · rw [List.getElem?_eq_none (by simpa using Nat.succ_le_of_lt behind), if_neg (Nat.ne_of_gt behind)]
    rfl

theorem listed_crowd (n : Nat) : (crowd n).listed = [(n, "f")] := by
  have length : (crowd n).functions.length = n + 1 := by simp [crowd]
  have none : (List.range n).filterMap (fun k => ((crowd n).nameAt? k).map (k, ·)) = [] := by
    refine List.filterMap_eq_nil_iff.mpr fun k member => ?_
    rw [nameAt?_crowd, if_neg (Nat.ne_of_lt (List.mem_range.mp member))]
    rfl
  rw [listed, length, List.range_succ, List.filterMap_append, none, List.nil_append, List.filterMap_cons, nameAt?_crowd,
    if_pos rfl]
  rfl

theorem foldlM_unnamed {n : Nat} (few : n ≤ UInt32.size) (names : List (String × UInt32)) :
    (List.replicate n ({ body := [] } : FunctionEntry)).foldlM
      (fun m entry => outcome (addFunction names entry m)) .empty = .ok { functions := List.replicate n {} } := by
  have parsed : FunctionEntry.parse names { body := [] } = .ok {} := rfl
  have unnamed : (List.replicate n ({ body := [] } : FunctionEntry)).filterMap FunctionEntry.name = [] :=
    List.filterMap_replicate_of_none rfl
  have noExport : named 0 (List.replicate n { body := [] }) = [] :=
    List.map_eq_nil_iff.mp ((map_fst_named ..).trans unnamed)
  have room : Machine.empty.functions.length + (List.replicate n ({ body := [] } : FunctionEntry)).length ≤
      UInt32.size := by
    rw [List.length_replicate]
    exact Nat.le_trans (Nat.le_of_eq (Nat.zero_add n)) few
  refine (foldlM_addFunction_eq_ok_iff (m := .empty) room List.nodup_nil).mpr ⟨List.replicate n {}, ?_, ?_, ?_⟩
  · exact List.forall₂_iff_get.mpr ⟨by simp, fun k _ _ => by simp [parsed]⟩
  · rw [unnamed]
    exact List.nodup_nil
  · exact (congrArg (fun exports => ({ functions := _, exports } : Machine)) noExport).symm

/-- The index of the last function comes round to that of the first one. -/
theorem instantiate_crowd {n : Nat} (full : n = UInt32.size) :
    (crowd n).instantiate = .ok { functions := List.replicate (n + 1) {}, exports := [("f", 0)] } := by
  have round : UInt32.ofNat (List.replicate n ({} : Function)).length = 0 := by
    rw [List.length_replicate, full]
    rfl
  have last (names : List (String × UInt32)) :
      outcome (addFunction names { name := some "f", body := [] } { functions := List.replicate n {} }) =
        .ok { functions := List.replicate (n + 1) {}, exports := [("f", 0)] } := by
    change outcome (Machine.addExport "f" (UInt32.ofNat (List.replicate n ({} : Function)).length)
      { functions := List.replicate n {} ++ [{}] }) = _
    rw [round, ← List.replicate_succ']
    simp [Machine.addExport, Machine.functionIndex?, outcome]
  have globals : (crowd n).globals = [] := rfl
  have functions : (crowd n).functions = List.replicate n { body := [] } ++ [{ name := some "f", body := [] }] := rfl
  rw [instantiate_eq, globals, functions]
  simp only [List.foldlM_nil, pure_bind, List.foldlM_append, List.foldlM_cons]
  rw [foldlM_unnamed (Nat.le_of_eq full)]
  simp only [bind, Except.bind, last]
  rfl

/-- The text of a program with two functions, of which only the first has a name, and one with a line break. -/
def brokenText : String :=
  "\x7b\"functions\": [\x7b\"name\": \"a ()\\n  [1] b\", \"body\": []\x7d, \x7b\"body\": []\x7d]\x7d"

def broken : Document where
  functions := [{ name := some "a ()\n  [1] b", body := [] }, { body := [] }]

/-- With more functions than there are indices, the tools show the name of the last one at the first one. And a name
with a line break can look like an entry for a function that has no name. -/
theorem listings_mislead :
    (∃ m, (crowd UInt32.size).instantiate = .ok m ∧ (crowd UInt32.size).listed = [(UInt32.size, "f")] ∧
      exportLines m = ["  [0] f ()"] ∧ exportName? m 0 = some "f" ∧ exportName? m UInt32.size = none) ∧
    broken.listed = [(0, "a ()\n  [1] b")] ∧
      (Command.report (.ok brokenText) (.run "stdin" { listExports := true })).out =
        "Exported functions:\n  [0] a ()\n  [1] b ()\n" := by
  have parsed : Document.parse brokenText = .ok broken := by decide +kernel
  have loaded : broken.instantiate = .ok { functions := [{}, {}], exports := [("a ()\n  [1] b", 0)] } := by
    decide +kernel
  refine ⟨⟨_, instantiate_crowd rfl, listed_crowd _, ?_, rfl, rfl⟩, rfl, ?_⟩
  · have first : (List.replicate (UInt32.size + 1) ({} : Function))[(0 : UInt32).toNat]? = some {} := by
      rw [List.replicate_succ]
      rfl
    rw [exportLines, List.mergeSort_singleton, List.map_singleton]
    dsimp only
    rw [exportLine_eq, first]
    rfl
  · refine (report_listExports parsed loaded "stdin" rfl).2.trans ?_
    decide +kernel

end Tool

end ScopeMachine
