import ScopeMachine.Proofs.Document.Meaning
import ScopeMachine.Proofs.Renumbering

/-! # Documents with their functions in another order

If functions are called by name only, their order in a document does not matter: each name then stands for
another index but for the same code, so an invocation by name has the same answer.
-/

namespace ScopeMachine

namespace Machine

/-- The machine that is used after an invocation, which is reset if it has trapped. -/
def resumed : EStateM.Result Error Machine (List Value) → Machine
  | .ok _ m => m
  | .error _ m => m.reset

/-- Looks functions up by name and invokes them one after the other, and tells how each invocation ends. -/
def invokeNamed? (fuel : Nat) : List (String × List Value) → Machine → Option (List Answer)
  | [], _ => some []
  | (name, args) :: calls, m =>
    match m.functionIndex? name with
    | none => none
    | some index =>
      match invoke? fuel index args m with
      | none => none
      | some ended => (invokeNamed? fuel calls (resumed ended)).map (.ofResult ended :: ·)

variable {m : Machine} {fuel : Nat}

theorem invoke?_ok {index : UInt32} {args values : List Value} {left : Machine}
    (ended : invoke? fuel index args m = some (.ok values left)) : left.frames = [] ∧ left.results = [] := by
  cases invoked_of_invoke? ended with
  | returned starts finishes => exact ⟨finishes.2, rfl⟩

/-- A machine that has not trapped needs no reset. -/
theorem resumed_eq {index : UInt32} {args : List Value} {result : EStateM.Result Error Machine (List Value)}
    (ended : invoke? fuel index args m = some result) :
    resumed result = { m.reset with globals := (Answer.ofResult result).globals } := by
  rw [← reset_left ended]
  cases result with
  | error e left => rfl
  | ok values left =>
    obtain ⟨functions, globals, exports, frames, results, maxDepth⟩ := left
    obtain ⟨rfl, rfl⟩ := invoke?_ok ended
    rfl

/-- It makes no difference whether names are looked up before or between the invocations. -/
theorem invokeNamed?_eq {calls : List (String × List Value)} {resolved : List (UInt32 × List Value)}
    (known : List.Forall₂ (fun call target => m.functionIndex? call.1 = some target.1 ∧ call.2 = target.2)
      calls resolved) : invokeNamed? fuel calls m = invokeAll? fuel resolved m := by
  induction calls generalizing m resolved with
  | nil =>
    cases known
    rfl
  | cons call calls ih =>
    cases known with
    | @cons _ target _ resolved head tail =>
      obtain ⟨name, args⟩ := call
      obtain ⟨index, _⟩ := target
      obtain ⟨found, rfl⟩ := head
      unfold invokeNamed? invokeAll?
      rw [found]
      cases ended : invoke? fuel index args m with
      | none => simp only [ended]
      | some result =>
        have further (globals : List Value) :
            invokeNamed? fuel calls { m.reset with globals } = invokeAll? fuel resolved { m.reset with globals } :=
          ih tail
        simp only [ended, resumed_eq ended, reset_left ended, further]

end Machine

namespace Document

/-- Every line that is read as a call says whom it calls by name. -/
def CallsByName (d : Document) : Prop := ∀ f ∈ d.functions, ∀ line ∈ f.body, ∀ index,
  parseLine d.names line = .ok (.call index) → ∃ name, CallsName line name

/-- Indices that stand for the same name on two machines. -/
def SameName (m m' : Machine) (index index' : UInt32) : Prop :=
  ∃ name, m.functionIndex? name = some index ∧ m'.functionIndex? name = some index'

variable {d : Document} {m m' : Machine} {functions : List FunctionEntry}

/-- What is asked of a document does not depend on the order of its functions. -/
theorem WellFormed.perm (wellFormed : d.WellFormed) (perm : d.functions.Perm functions) :
    { d with functions }.WellFormed where
  globals := wellFormed.globals
  lines f member line inBody := by
    obtain ⟨calls, others⟩ := wellFormed.lines f (perm.mem_iff.mpr member) line inBody
    refine ⟨fun name named => ?_, others⟩
    obtain ⟨callee, known, isName⟩ := calls name named
    exact ⟨callee, perm.mem_iff.mp known, isName⟩
  types f member := wellFormed.types f (perm.mem_iff.mpr member)
  distinct := (perm.filterMap FunctionEntry.name).nodup_iff.mp wellFormed.distinct

/-- An exported name belongs to a function of the document. -/
theorem Describes.exported (describes : d.Describes m) {name : String} {index : UInt32}
    (found : m.functionIndex? name = some index) :
    ∃ f g, d.functions[index.toNat]? = some f ∧ f.name = some name ∧ m.functions[index.toNat]? = some g ∧
      f.Describes m g := by
  obtain ⟨f, here, isName⟩ := (describes.exports name index).mp ((describes.functionIndex? name index).mp found)
  have related := rel_getElem? describes.functions index.toNat
  rw [here] at related
  generalize there : m.functions[index.toNat]? = right at related
  cases related with
  | some related => exact ⟨f, _, here, isName, rfl, related⟩

/-- Every name of a function in the document is exported. -/
theorem Describes.exists_index (describes : d.Describes m) (few : d.functions.length < UInt32.size)
    {f : FunctionEntry} (member : f ∈ d.functions) {name : String} (isName : f.name = some name) :
    ∃ index, m.functionIndex? name = some index ∧ d.functions[index.toNat]? = some f := by
  obtain ⟨k, found⟩ := List.mem_iff_getElem?.mp member
  obtain ⟨bound, -⟩ := List.getElem?_eq_some_iff.mp found
  have value : (UInt32.ofNat k).toNat = k := UInt32.toNat_ofNat_of_lt' (Nat.lt_trans bound few)
  rw [← value] at found
  exact ⟨.ofNat k, (describes.functionIndex? name _).mpr ((describes.exports name _).mpr ⟨f, found, isName⟩), found⟩

theorem Describes.isSome_functionIndex?_iff (describes : d.Describes m) (few : d.functions.length < UInt32.size)
    {name : String} : (m.functionIndex? name).isSome = true ↔ ∃ f ∈ d.functions, f.name = some name := by
  constructor
  · intro exported
    obtain ⟨index, found⟩ := Option.isSome_iff_exists.mp exported
    obtain ⟨f, -, here, isName, -⟩ := describes.exported found
    exact ⟨f, List.mem_of_getElem? here, isName⟩
  · rintro ⟨f, member, isName⟩
    obtain ⟨index, found, -⟩ := describes.exists_index few member isName
    exact Option.isSome_iff_exists.mpr ⟨index, found⟩

/-- The same entry describes functions that differ in the indices of the functions that they call. -/
theorem renumbered_of_describes {entry : FunctionEntry} {f g : Function} (here : entry.Describes m f)
    (there : entry.Describes m' g)
    (byName : ∀ line ∈ entry.body, ∀ index, Instruction.parse line = .ok (.call index) →
      ∃ name, CallsName line name) : f.Renumbered (SameName m m') g := by
  have types {names : List String} {left right : List ValueType}
      (ofLeft : List.Forall₂ (fun name type => ValueType.ofName name = .ok type) names left)
      (ofRight : List.Forall₂ (fun name type => ValueType.ofName name = .ok type) names right) : right = left := by
    apply List.forall₂_eq_eq_eq ▸ forall₂_of_common ofRight ofLeft
    intro name _ left right isLeft isRight
    exact Except.ok.inj (isLeft.symm.trans isRight)
  refine ⟨types here.params there.params, types here.results there.results, types here.locals there.locals,
    forall₂_of_common here.body there.body ?_⟩
  rintro line inBody i j ⟨named, other⟩ ⟨named', other'⟩
  by_cases calls : ∃ name, CallsName line name
  · obtain ⟨name, calls⟩ := calls
    obtain ⟨index, found, rfl⟩ := named name calls
    obtain ⟨index', found', rfl⟩ := named' name calls
    exact .call ⟨name, found, found'⟩
  · have direct : ∀ name, ¬ CallsName line name := fun name named => calls ⟨name, named⟩
    obtain rfl : i = j := Except.ok.inj ((other direct).symm.trans (other' direct))
    refine .same ?_
    rintro index rfl
    exact calls (byName line inBody index (other direct))

/-- The machines of a document and of the document with its functions in another order correspond. -/
theorem renumbered_perm (few : d.functions.length < UInt32.size) (byName : d.CallsByName)
    (perm : d.functions.Perm functions) (describes : d.Describes m)
    (describes' : { d with functions }.Describes m') (globals : List Value) :
    Machine.Renumbered (SameName m m') { m with globals } { m' with globals } where
  known := by
    rintro a b ⟨name, found, found'⟩
    obtain ⟨entry, f, here, isName, isFunction, described⟩ := describes.exported found
    obtain ⟨entry', g, there, isName', isFunction', described'⟩ := describes'.exported found'
    -- The other entry is also one of the document, where no other one has the name.
    have member : entry' ∈ d.functions := perm.mem_iff.mpr (List.mem_of_getElem? there)
    obtain ⟨index, own, here'⟩ := describes.exists_index few member isName'
    obtain rfl : a = index := Option.some.inj (found.symm.trans own)
    obtain rfl : entry = entry' := Option.some.inj (here.symm.trans here')
    refine ⟨f, g, isFunction, isFunction', renumbered_of_describes described described' ?_⟩
    intro line inBody index read
    by_cases named : ∃ name, CallsName line name
    · exact named
    · apply byName entry member line inBody index
      rw [parseLine_of_direct fun name calls => named ⟨name, calls⟩]
      exact read
  frames := by
    rw [describes.idle, describes'.idle]
    exact .nil
  globals := rfl
  results := describes'.results.trans describes.results.symm
  maxDepth := describes'.maxDepth.trans describes.maxDepth.symm

/-- If functions are called by name only, a document whose functions are given in another order describes a
machine with the same exported names, on which any invocations by name, one after the other, have the same
answers: they return the same values or fail with the same error, with the same globals each time, or they do not
come to an end. -/
theorem instantiate_perm (few : d.functions.length < UInt32.size) (loaded : d.instantiate = .ok m)
    (byName : d.CallsByName) (perm : d.functions.Perm functions) :
    ∃ m', { d with functions }.instantiate = .ok m' ∧ m'.globals = m.globals ∧
      (∀ name, (m'.functionIndex? name).isSome = (m.functionIndex? name).isSome) ∧
      ∀ (globals : List Value) (calls : List (String × List Value)),
        (∀ call ∈ calls, (m.functionIndex? call.1).isSome = true) →
        ∀ answers, (∃ fuel, Machine.invokeNamed? fuel calls { m with globals } = some answers) ↔
          ∃ fuel, Machine.invokeNamed? fuel calls { m' with globals } = some answers := by
  have describes := describes few loaded
  have few' : { d with functions }.functions.length < UInt32.size := perm.length_eq ▸ few
  have wellFormed := (exists_instantiate_iff few).mp ⟨m, loaded⟩
  obtain ⟨m', loaded'⟩ := (exists_instantiate_iff few').mpr (wellFormed.perm perm)
  have describes' := Document.describes few' loaded'
  have renumbered := renumbered_perm few byName perm describes describes'
  have sameGlobals : m'.globals = m.globals := by
    apply List.forall₂_eq_eq_eq ▸ forall₂_of_common describes'.globals describes.globals
    rintro g _ v v' ⟨type, ofName, parsed⟩ ⟨type', ofName', parsed'⟩
    obtain rfl : type = type' := Except.ok.inj (ofName.symm.trans ofName')
    exact Except.ok.inj (parsed.symm.trans parsed')
  have sameNames (name : String) : (m'.functionIndex? name).isSome = (m.functionIndex? name).isSome := by
    rw [Bool.eq_iff_iff, describes.isSome_functionIndex?_iff few, describes'.isSome_functionIndex?_iff few']
    simp only [perm.mem_iff]
  refine ⟨m', loaded', sameGlobals, sameNames, fun globals calls exported answers => ?_⟩
  have resolves {m : Machine} (exported : ∀ call ∈ calls, (m.functionIndex? call.1).isSome = true) :
      ∃ resolved : List (UInt32 × List Value), List.Forall₂
        (fun call target => m.functionIndex? call.1 = some target.1 ∧ call.2 = target.2) calls resolved := by
    apply exists_forall₂_iff.mpr
    intro call member
    obtain ⟨index, found⟩ := Option.isSome_iff_exists.mp (exported call member)
    exact ⟨(index, call.2), found, rfl⟩
  obtain ⟨resolved, known⟩ := resolves exported
  obtain ⟨resolved', known'⟩ := resolves fun call member => (sameNames call.1).trans (exported call member)
  have related : List.Forall₂ (fun call call' => SameName m m' call.1 call'.1 ∧ call.2 = call'.2) resolved resolved' :=
    forall₂_of_common known known' fun call _ target target' ⟨found, args⟩ ⟨found', args'⟩ =>
      ⟨⟨call.1, found, found'⟩, args.symm.trans args'⟩
  have own (fuel : Nat) : Machine.invokeNamed? fuel calls { m with globals } =
      Machine.invokeAll? fuel resolved { m with globals } := Machine.invokeNamed?_eq known
  have other (fuel : Nat) : Machine.invokeNamed? fuel calls { m' with globals } =
      Machine.invokeAll? fuel resolved' { m' with globals } := Machine.invokeNamed?_eq known'
  simp only [own, other]
  exact (renumbered globals).invokeAll?_iff describes.idle related answers

theorem callsByName_evenOdd : evenOdd.CallsByName := by
  have noCall : (evenOdd.functions.flatMap FunctionEntry.body).all (fun line =>
      (Instruction.parse line).toOption.all fun i => i.opcode != 0x10) = true := by rfl
  intro f member line inBody index read
  have other := List.all_eq_true.mp noCall line (List.mem_flatMap.mpr ⟨f, member, inBody⟩)
  by_cases named : ∃ name, CallsName line name
  · exact named
  · rw [parseLine_of_direct fun name calls => named ⟨name, calls⟩] at read
    rw [read] at other
    cases other

theorem instantiate_perm_evenOdd : ∃ m m', evenOdd.instantiate = .ok m ∧
    { evenOdd with functions := evenOdd.functions.reverse }.instantiate = .ok m' ∧
    m.functionIndex? "odd" = some 1 ∧
    ∀ args answers, (∃ fuel, Machine.invokeNamed? fuel [("odd", args)] m = some answers) ↔
      ∃ fuel, Machine.invokeNamed? fuel [("odd", args)] m' = some answers := by
  obtain ⟨m, loaded⟩ := exists_instantiate_evenOdd
  have few : evenOdd.functions.length < UInt32.size := by decide
  have perm : evenOdd.functions.Perm evenOdd.functions.reverse := evenOdd.functions.reverse_perm.symm
  obtain ⟨m', loaded', globals, -, same⟩ := instantiate_perm few loaded callsByName_evenOdd perm
  have described := describes few loaded
  have odd : m.functionIndex? "odd" = some 1 :=
    (described.functionIndex? "odd" 1).mpr ((described.exports "odd" 1).mpr ⟨_, rfl, rfl⟩)
  refine ⟨m, m', loaded, loaded', odd, fun args answers => ?_⟩
  have exported : ∀ call ∈ [("odd", args)], (m.functionIndex? call.1).isSome = true := by simp [odd]
  have sameGlobals : { m' with globals := m.globals } = m' := by rw [← globals]
  have agree := same m.globals _ exported answers
  rwa [sameGlobals] at agree

end Document

end ScopeMachine
