import ScopeMachine.Proofs.Document.Loading
import ScopeMachine.Proofs.Document.Written

/-! # Listings

A listing is the document that writes out given globals and functions. Loaded again, it is a machine
with just these globals and functions.
-/

namespace ScopeMachine

/-- A global written out. -/
def GlobalEntry.listing (v : Value) : GlobalEntry where
  type := ValueType.i32.name
  value := toString v

/-- A function written out, under a name if it has one. -/
def FunctionEntry.listing (name : Option String) (f : Function) : FunctionEntry where
  name
  params := f.params.map ValueType.name
  results := f.results.map ValueType.name
  locals := f.locals.map ValueType.name
  body := f.body.toList.map Instruction.text

/-- Globals and functions written out in order. -/
def Document.listing (globals : List Value) (functions : List (Option String × Function)) : Document where
  globals := globals.map .listing
  functions := functions.map fun (name, f) => .listing name f

theorem GlobalEntry.parse_listing (v : Value) : (listing v).parse = .ok v := by
  have type : ValueType.ofName (listing v).type = .ok .i32 := ValueType.ofName_name .i32
  rw [parse, type]
  exact Value.parse_toString v

/-- A function is read back from what is written, whatever functions can be named in it. -/
theorem FunctionEntry.parse_listing (names : List (String × UInt32)) (name : Option String) (f : Function) :
    (listing name f).parse names = .ok f := by
  have types (types : List ValueType) :
      List.Forall₂ (fun name type => ValueType.ofName name = .ok type) (types.map ValueType.name) types :=
    forall₂_map_self ValueType.ofName_name types
  have lines : List.Forall₂ (fun line i => Document.parseLine names line = .ok i)
      (f.body.toList.map Instruction.text) f.body.toList :=
    forall₂_map_self (Document.parseLine_written names) f.body.toList
  exact FunctionEntry.parse_eq_ok_iff.mpr ⟨lines, types _, types _, types _⟩

namespace Document

variable {globals : List Value} {functions : List (Option String × Function)}

theorem filterMap_name_listing :
    (listing globals functions).functions.filterMap FunctionEntry.name = functions.filterMap Prod.fst := by
  rw [listing, List.filterMap_map]
  rfl

/-- What a listing exports. -/
theorem mem_named_listing_iff (few : functions.length < UInt32.size) {name : String} {index : UInt32} :
    (name, index) ∈ named 0 (listing globals functions).functions ↔
      ∃ f, functions[index.toNat]? = some (some name, f) := by
  rw [mem_named_iff (by simp [listing]; omega)]
  simp only [listing, List.getElem?_map, Option.map_eq_some_iff, Nat.zero_add]
  constructor
  · rintro ⟨k, entry, ⟨⟨own, f⟩, found, rfl⟩, rfl, rfl⟩
    exact ⟨f, found⟩
  · rintro ⟨f, found⟩
    exact ⟨_, _, ⟨_, found, rfl⟩, rfl, rfl⟩

/-- A listing describes the machine that holds what is listed. -/
theorem instantiate_listing (few : functions.length < UInt32.size)
    (distinct : (functions.filterMap Prod.fst).Nodup) :
    (listing globals functions).instantiate = .ok {
      globals, functions := functions.map Prod.snd
      exports := named 0 (listing globals functions).functions } := by
  rw [instantiate_eq_ok_iff (by simp [listing]; omega)]
  have own : ((listing globals functions).functions.filterMap FunctionEntry.name).Nodup :=
    filterMap_name_listing ▸ distinct
  refine ⟨globals, functions.map Prod.snd, forall₂_map_self GlobalEntry.parse_listing globals, ?_, own, rfl⟩
  rw [List.forall₂_map_right_iff]
  exact forall₂_map_self (fun _ => FunctionEntry.parse_listing _ _ _) functions

/-- Writing globals and functions out and loading them again gives them back in order, each function
exported under its own name alone. An instruction is read back from its text by itself, and inside a
document whatever functions can be named in it. -/
theorem listing_roundTrip (globals : List Value) (functions : List (Option String × Function))
    (few : functions.length < UInt32.size) (distinct : (functions.filterMap Prod.fst).Nodup) :
    (∃ m, (listing globals functions).instantiate = .ok m ∧ m.globals = globals ∧
      m.functions = functions.map Prod.snd ∧ (m.exports.map Prod.fst).Nodup ∧
      (∀ name index, (name, index) ∈ m.exports ↔ ∃ f, functions[index.toNat]? = some (some name, f)) ∧
      ∀ name index, m.functionIndex? name = some index ↔ (name, index) ∈ m.exports) ∧
    (∀ i : Instruction, Instruction.parse i.text = .ok i) ∧
      ∀ names, ∀ i : Instruction, parseLine names i.text = .ok i := by
  have once : ((named 0 (listing globals functions).functions).map Prod.fst).Nodup := by
    rw [map_fst_named, filterMap_name_listing]
    exact distinct
  exact ⟨⟨_, instantiate_listing few distinct, rfl, rfl, once, fun _ _ => mem_named_listing_iff few,
      fun _ _ => lookup_eq_some_iff_mem once⟩,
    Instruction.parse_written, parseLine_written⟩

/-- Exchanges its two arguments in a scope with two parameters and two results. -/
def swap : Function where
  params := [.i32, .i32]
  results := [.i32, .i32]
  body := #[.localGet 1, .localGet 0, .enter .block { params := [.i32, .i32], results := [.i32, .i32] }, .close]

theorem listing_roundTrip_swap : ∃ m, (listing [-1] [(some "call", swap), (none, swap)]).instantiate = .ok m ∧
    m.functions = [swap, swap] ∧ m.functionIndex? "call" = some 0 := by
  obtain ⟨⟨m, loaded, -, functions, -, exports, functionIndex⟩, -, -⟩ :=
    listing_roundTrip [-1] [(some "call", swap), (none, swap)] (by decide) (by decide)
  exact ⟨m, loaded, functions, (functionIndex _ _).mpr ((exports _ _).mpr ⟨swap, rfl⟩)⟩

end Document

end ScopeMachine
