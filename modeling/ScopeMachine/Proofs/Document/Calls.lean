import ScopeMachine.Proofs.Document.Meaning
import ScopeMachine.Proofs.Document.Written
import ScopeMachine.Proofs.Numeral

/-! # Calls in documents

A line of a document is read as the instruction that it spells, and its call may name a function instead of
giving an index. `Document.parseLine_of_parse` says where the second reading gets in the way of the first: an
instruction may have parentheses around its index, and a document takes the index with its parentheses for
a name (`CallsBracketed`). `Document.parseLine_own_name` says which functions are called by their own names:
as the dollar signs in front of a name in a call do not belong to it, a function whose name begins with one
is exported under that name, and the call goes to the function whose name is the rest of it, if there is one.
-/

namespace ScopeMachine

namespace Decimal

/-- An unsigned numeral holds digits, and possibly a plus. -/
theorem chars_of_uint32? {text : String} {n : UInt32} (read : uint32? text = some n) :
    text ≠ "" ∧ ∀ c ∈ text.toList, c = '+' ∨ c.isDigit = true := by
  obtain ⟨digits, denotes, spelled | spelled⟩ := uint32?_eq_some_iff.mp read
  · rw [ne_eq, ← String.toList_eq_nil_iff, spelled]
    exact ⟨denotes.nonempty, fun c member => .inr (denotes.isDigit c member)⟩
  · rw [ne_eq, ← String.toList_eq_nil_iff, spelled]
    exact ⟨List.cons_ne_nil _ _,
      List.forall_mem_cons.mpr ⟨.inl rfl, fun c member => .inr (denotes.isDigit c member)⟩⟩

end Decimal

namespace Instruction

open Text

theorem isWord_of_uint32? {numeral : String} {n : UInt32} (read : Decimal.uint32? numeral = some n) :
    IsWord separates numeral := by
  obtain ⟨nonempty, chars⟩ := Decimal.chars_of_uint32? read
  exact isWord_of_numeral nonempty fun c member => .inr (chars c member)

theorem soleWord_eq_ok_iff {rest : List String} {word : String} : soleWord rest = .ok word ↔ rest = [word] := by
  unfold soleWord
  split <;> simp_all

/-- An instruction with an index has one further word, which is the index. -/
theorem ofWords_indexed_eq_ok_iff {make : UInt32 → Instruction} {rest : List String} {i : Instruction} :
    (Form.indexed make).ofWords rest = .ok i ↔
      ∃ numeral index, rest = [numeral] ∧ Decimal.uint32? numeral = some index ∧ i = make index := by
  have read {numeral : String} {index : UInt32} :
      parseIndex numeral = .ok index ↔ Decimal.uint32? numeral = some index := by
    unfold parseIndex
    cases Decimal.uint32? numeral <;> simp
  rw [Form.ofWords]
  simp only [bind_eq_ok_iff, soleWord_eq_ok_iff, read, pure, Except.pure, Except.ok.injEq, eq_comm (b := i)]
  exact ⟨fun ⟨numeral, sole, index, read, isCall⟩ => ⟨numeral, index, sole, read, isCall⟩,
    fun ⟨numeral, index, sole, read, isCall⟩ => ⟨numeral, sole, index, read, isCall⟩⟩

theorem parse_of_words_call {line operand : String} (words : Text.words line = ["call", operand]) :
    parse line = (Form.indexed call).ofWords (wordsBy separates operand) := by
  have blank : ∀ c, isBlank c = true → separates c = true := fun c blank => by simp [separates, blank]
  have name : wordsBy separates "call" = ["call"] := IsWord.wordsBy (by decide)
  rw [parse, ← flatMap_wordsBy blank]
  change ofWords ((Text.words line).flatMap _) = _
  rw [words, List.flatMap_cons, List.flatMap_singleton, name]
  rfl

end Instruction

namespace CallsName

/-- A line of two words, of which the second is no index, calls by name. -/
theorem of_words {line operand : String} (words : Text.words line = ["call", operand])
    (noIndex : Decimal.uint32? operand = none) : CallsName line (Document.bareName operand) := by
  obtain ⟨dollars, spelled, bare⟩ := exists_replicate operand
  exact ⟨⟨operand, dollars, words, noIndex, spelled⟩, bare⟩

/-- Exactly the names that do not begin with a dollar sign are bare. -/
theorem bareName_eq_self_iff {name : String} : Document.bareName name = name ↔ name.toList.head? ≠ some '$' := by
  constructor
  · intro same
    obtain ⟨dollars, -, bare⟩ := exists_replicate name
    rwa [same] at bare
  · have none : name.toList = List.replicate 0 '$' ++ name.toList := rfl
    exact bareName_eq none

end CallsName

/-- A line of two words calls an index that has parentheses around it, with no blank in between. -/
structure CallsBracketed (line operand : String) (index : UInt32) : Prop where
  words : Text.words line = ["call", operand]
  exists_numeral : ∃ opening numeral closing, operand.toList = opening ++ numeral.toList ++ closing ∧
    opening ++ closing ≠ [] ∧ (∀ c ∈ opening ++ closing, c = '(' ∨ c = ')') ∧
    Decimal.uint32? numeral = some index

namespace CallsBracketed

open Text Instruction

variable {line operand : String} {index : UInt32}

theorem noIndex (brackets : CallsBracketed line operand index) : Decimal.uint32? operand = none := by
  obtain ⟨opening, numeral, closing, split, some, parentheses, -⟩ := brackets.exists_numeral
  obtain ⟨c, inside⟩ := List.exists_mem_of_ne_nil _ some
  have member : c ∈ operand.toList := by
    rw [split]
    rcases List.mem_append.mp inside with inside | inside <;> simp [inside]
  cases read : Decimal.uint32? operand with
  | none => rfl
  | some n =>
    rcases (Decimal.chars_of_uint32? read).2 c member with rfl | digit
    · rcases parentheses _ inside with same | same <;> cases same
    · rcases parentheses _ inside with rfl | rfl <;> cases digit

theorem noDollar (brackets : CallsBracketed line operand index) : '$' ∉ operand.toList := by
  obtain ⟨opening, numeral, closing, split, -, parentheses, read⟩ := brackets.exists_numeral
  intro member
  rw [split, List.append_assoc, List.mem_append, List.mem_append, or_left_comm, ← List.mem_append] at member
  rcases member with inside | inside
  · rcases (Decimal.chars_of_uint32? read).2 _ inside with same | digit
    · cases same
    · cases digit
  · rcases parentheses _ inside with same | same <;> cases same

/-- Read as an instruction, the line is the call of the index. -/
theorem parse (brackets : CallsBracketed line operand index) : Instruction.parse line = .ok (.call index) := by
  obtain ⟨opening, numeral, closing, split, -, parentheses, read⟩ := brackets.exists_numeral
  have separators : ∀ c ∈ opening ++ closing, separates c = true := by
    intro c member
    rcases parentheses c member with rfl | rfl <;> rfl
  have sole : wordsBy separates operand = [numeral] :=
    wordsBy_eq_singleton_iff.mpr ⟨isWord_of_uint32? read, opening, closing, split, separators⟩
  rw [parse_of_words_call brackets.words, ofWords_indexed_eq_ok_iff]
  exact ⟨numeral, index, sole, read, rfl⟩

/-- Read in a document, the line names a function, parentheses and all. -/
theorem parseLine (brackets : CallsBracketed line operand index) (names : List (String × UInt32)) :
    Document.parseLine names line = match names.lookup operand with
      | some other => .ok (.call other)
      | none => .error .unknownFunctionName := by
  have bare : operand.toList.head? ≠ some '$' := fun first => brackets.noDollar (List.mem_of_head? first)
  have named := CallsName.of_words brackets.words brackets.noIndex
  rw [CallsName.bareName_eq_self_iff.mpr bare] at named
  exact named.parseLine names

/-- A line that is an instruction and yet calls by name calls an index in parentheses. -/
theorem of_callsName {name : String} {i : Instruction} (calls : CallsName line name)
    (parsed : Instruction.parse line = .ok i) : ∃ operand index, CallsBracketed line operand index := by
  obtain ⟨⟨operand, dollars, words, noIndex, -⟩, -⟩ := calls
  rw [parse_of_words_call words, ofWords_indexed_eq_ok_iff] at parsed
  obtain ⟨numeral, index, sole, read, -⟩ := parsed
  obtain ⟨-, opening, closing, split, separators⟩ := wordsBy_eq_singleton_iff.mp sole
  have member : operand ∈ Text.words line := by simp [words]
  have isWord : IsWord isBlank operand := isWord_of_mem_wordsBy member
  refine ⟨operand, index, words, opening, numeral, closing, split, ?_, ?_, read⟩
  · intro none
    obtain ⟨rfl, rfl⟩ := List.append_eq_nil_iff.mp none
    obtain rfl : operand = numeral := String.toList_inj.mp (by simpa using split)
    rw [read] at noIndex
    cases noIndex
  · intro c member
    have inside : c ∈ operand.toList := by
      rw [split]
      rcases List.mem_append.mp member with member | member <;> simp [member]
    have joined := isWord.joined c inside
    have separator := separators c member
    simpa [separates, joined] using separator

end CallsBracketed

namespace Document

/-- A line that is an instruction by itself stands for that instruction in every document, whatever functions
can be named there, unless it calls an index in parentheses: then the document takes the index with its
parentheses for the name of a function. -/
theorem parseLine_of_parse {line : String} {i : Instruction} (parsed : Instruction.parse line = .ok i)
    (names : List (String × UInt32)) :
    ((∀ operand index, ¬ CallsBracketed line operand index) → parseLine names line = .ok i) ∧
      ∀ operand index, CallsBracketed line operand index → i = .call index ∧
        (∀ other, names.lookup operand = some other → parseLine names line = .ok (.call other)) ∧
        (names.lookup operand = none → parseLine names line = .error .unknownFunctionName) := by
  constructor
  · intro plain
    rw [parseLine_of_direct, parsed]
    intro name calls
    obtain ⟨operand, index, brackets⟩ := CallsBracketed.of_callsName calls parsed
    exact plain operand index brackets
  · intro operand index brackets
    refine ⟨Except.ok.inj (parsed.symm.trans brackets.parse), ?_, ?_⟩
    · intro other known
      rw [brackets.parseLine, known]
    · intro unknown
      rw [brackets.parseLine, unknown]

/-- Parentheses with blanks around them do not matter, and parentheses without do. -/
theorem parseLine_of_parse_parentheses :
    Instruction.parse "call ( +07 )" = .ok (.call 7) ∧
      (∀ operand index, ¬ CallsBracketed "call ( +07 )" operand index) ∧
      parseLine [("+07", 1)] "call ( +07 )" = .ok (.call 7) ∧
      Instruction.parse "call (+07)" = .ok (.call 7) ∧ CallsBracketed "call (+07)" "(+07)" 7 ∧
      parseLine [("(+07)", 1)] "call (+07)" = .ok (.call 1) := by
  have apart : Instruction.parse "call ( +07 )" = .ok (.call 7) := by rfl
  have close : Instruction.parse "call (+07)" = .ok (.call 7) := by rfl
  have plain : ∀ operand index, ¬ CallsBracketed "call ( +07 )" operand index := by
    intro operand index brackets
    have words : ["call", "(", "+07", ")"] = ["call", operand] := brackets.words
    cases words
  have brackets : CallsBracketed "call (+07)" "(+07)" 7 :=
    ⟨by rfl, ['('], "+07", [')'], by decide, by decide, by simp, by rfl⟩
  have known : [("(+07)", (1 : UInt32))].lookup "(+07)" = some 1 := List.lookup_cons_self
  exact ⟨apart, plain, (parseLine_of_parse apart _).1 plain, close, brackets,
    ((parseLine_of_parse close _).2 _ _ brackets).2.1 1 known⟩

/-- An instruction that a document refuses, or takes for another call. -/
theorem parseLine_bracketed : Instruction.parse "call (0)" = .ok (.call 0) ∧
    parseLine [("f", 0)] "call (0)" = .error .unknownFunctionName ∧
    parseLine [("f", 0), ("(0)", 1)] "call (0)" = .ok (.call 1) := by
  refine ⟨?_, ?_, ?_⟩ <;> rfl

variable {d : Document} {name : String} {k : Nat} {f : FunctionEntry}

/-- Where no name is repeated, a name stands for the function that has it. -/
theorem lookup_names_of_getElem? (few : d.functions.length < UInt32.size)
    (distinct : (d.functions.filterMap FunctionEntry.name).Nodup) (found : d.functions[k]? = some f)
    (isName : f.name = some name) : d.names.lookup name = some (.ofNat k) := by
  obtain ⟨bound, -⟩ := List.getElem?_eq_some_iff.mp found
  have value : (UInt32.ofNat k).toNat = k := UInt32.toNat_ofNat_of_lt' (Nat.lt_trans bound few)
  have exported : (name, UInt32.ofNat k) ∈ named 0 d.functions :=
    (mem_exports_iff (m := { exports := named 0 d.functions }) few rfl).mpr ⟨f, by rwa [value], isName⟩
  rw [lookup_names (m := { exports := named 0 d.functions }) rfl distinct, Machine.functionIndex?,
    lookup_eq_some_iff_mem (map_fst_named 0 d.functions ▸ distinct)]
  exact exported

theorem words_call {name : String} (isWord : Text.IsWord Text.isBlank name) :
    Text.words ("call " ++ name) = ["call", name] := by
  have spaced : "call " ++ name = "call" ++ " " ++ name := rfl
  have call : Text.IsWord Text.isBlank "call" := by decide
  rw [Text.words, spaced, Text.wordsBy_append_space (by decide), call.wordsBy, isWord.wordsBy]
  rfl

/-- A function whose name can stand as one word behind a call, and is no index there, is exported under its name,
and it is called by it if the name does not begin with a dollar sign. Otherwise the call goes to another
function, whose name is the rest behind the dollar signs, or there is no such function and it is refused. -/
theorem parseLine_own_name (few : d.functions.length < UInt32.size)
    (distinct : (d.functions.filterMap FunctionEntry.name).Nodup) (found : d.functions[k]? = some f)
    (isName : f.name = some name) (isWord : Text.IsWord Text.isBlank name)
    (noIndex : Decimal.uint32? name = none) :
    (∀ m, d.instantiate = .ok m → m.functionIndex? name = some (.ofNat k)) ∧
      (name.toList.head? ≠ some '$' → parseLine d.names ("call " ++ name) = .ok (.call (.ofNat k))) ∧
      (name.toList.head? = some '$' →
        (∀ j g, d.functions[j]? = some g → g.name = some (bareName name) →
          j ≠ k ∧ parseLine d.names ("call " ++ name) = .ok (.call (.ofNat j))) ∧
        ((∀ g ∈ d.functions, g.name ≠ some (bareName name)) →
          parseLine d.names ("call " ++ name) = .error .unknownFunctionName)) := by
  have calls := CallsName.of_words (words_call isWord) noIndex
  refine ⟨?_, ?_, fun dollar => ⟨?_, ?_⟩⟩
  · intro m loaded
    obtain ⟨values, fs, -, -, -, rfl⟩ := (instantiate_eq_ok_iff (Nat.le_of_lt few)).mp loaded
    exact (lookup_names rfl distinct).mp (lookup_names_of_getElem? few distinct found isName)
  · intro bare
    have known := lookup_names_of_getElem? few distinct found isName
    rw [calls.parseLine, CallsName.bareName_eq_self_iff.mpr bare, known]
  · intro j g other hasName
    have known := lookup_names_of_getElem? few distinct other hasName
    refine ⟨?_, by rw [calls.parseLine, known]⟩
    rintro rfl
    obtain rfl : f = g := Option.some.inj (found.symm.trans other)
    have same : bareName name = name := Option.some.inj (hasName.symm.trans isName)
    exact CallsName.bareName_eq_self_iff.mp same dollar
  · intro unknown
    rw [calls.parseLine, lookup_names_eq_none_iff.mpr unknown]

theorem parseLine_own_name_odd : evenOdd.functions.length < UInt32.size ∧
    (evenOdd.functions.filterMap FunctionEntry.name).Nodup ∧
    evenOdd.functions[1]?.bind FunctionEntry.name = some "odd" ∧
    Text.IsWord Text.isBlank "odd" ∧ Decimal.uint32? "odd" = none ∧
    (∀ m, evenOdd.instantiate = .ok m → m.functionIndex? "odd" = some 1) ∧
    parseLine evenOdd.names ("call " ++ "odd") = .ok (.call 1) := by
  have few : evenOdd.functions.length < UInt32.size := by decide
  have distinct : (evenOdd.functions.filterMap FunctionEntry.name).Nodup := by decide
  have isWord : Text.IsWord Text.isBlank "odd" := by decide
  have noIndex : Decimal.uint32? "odd" = none := by rfl
  obtain ⟨exported, called, -⟩ := parseLine_own_name (k := 1) few distinct rfl rfl isWord noIndex
  exact ⟨few, distinct, rfl, isWord, noIndex, exported, called (by decide)⟩

/-- Two functions, the name of one of which is that of the other behind a dollar sign. -/
def dollarNames : Document where
  functions := [
    { name := some "$f", body := ["i32.const 1"] },
    { name := some "f", body := ["i32.const 2"] },
    { name := some "main", body := ["call $f"] }]

/-- A function whose name begins with a dollar sign is exported under it, and a call by that name goes to
another function. -/
theorem parseLine_dollarNames : ∃ m, dollarNames.instantiate = .ok m ∧ m.functionIndex? "$f" = some 0 ∧
    parseLine dollarNames.names "call $f" = .ok (.call 1) := by
  have few : dollarNames.functions.length < UInt32.size := by decide
  have accepted : dollarNames.items.findSome? dollarNames.check = none := by rfl
  have loads : ∃ m, dollarNames.instantiate = .ok m := by
    rw [← refusal?_eq_none_iff, refusal?_instantiate (Nat.le_of_lt few), accepted]
    rfl
  obtain ⟨m, loaded⟩ := loads
  have described := describes few loaded
  have exported : (("$f", 0) : String × UInt32) ∈ m.exports := (described.exports "$f" 0).mpr ⟨_, rfl, rfl⟩
  exact ⟨m, loaded, (described.functionIndex? "$f" 0).mpr exported, by rfl⟩

end Document

end ScopeMachine
