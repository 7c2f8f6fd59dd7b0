import Mathlib.Tactic.FinCases
import ScopeMachine.Proofs.Document.Calls
import ScopeMachine.Proofs.Literal

/-! # The grammar of instructions

Which words spell which instruction. An annotation is a sequence of the words param, result and i32 in which no type
stands before any keyword, and each of its types belongs to the nearest keyword before it (`BlockType.Annotates`);
other sequences are refused for the first word that offends (`BlockType.FirstOffence`). `Instruction.Spells` lists
the forms of an instruction, and `Instruction.parse_eq_ok_iff_spells` shows that a text is read as the instructions
that its words spell, of which there is one or none.
-/

namespace ScopeMachine

namespace BlockType

/-- The words of annotations. -/
def vocabulary : List String := ["param", "result", "i32"]

/-- The keyword that stands nearest before what follows the words. -/
def keywordBefore? (words : List String) : Option String :=
  words.reverse.find? fun word => word == "param" || word == "result"

/-- How many types have the keyword as the nearest one before them. -/
def typesBehind (keyword : String) (words : List String) : Nat :=
  (List.range words.length).countP fun k =>
    words[k]? == some "i32" && keywordBefore? (words.take k) == some keyword

/-- What is wrong with a word of an annotation, given the words before it. -/
inductive Offends (before : List String) : String → Malformed → Prop
  | unknown {word : String} (foreign : word ∉ vocabulary) : Offends before word .invalidValueType
  | early (noKeyword : "param" ∉ before ∧ "result" ∉ before) : Offends before "i32" .invalidBlockType

/-- Nothing is wrong with any of the words. -/
def Clean (words : List String) : Prop :=
  ∀ before word after why, words = before ++ word :: after → ¬ Offends before word why

/-- Something is wrong with one of the words and with none before it. -/
def FirstOffence (words : List String) (why : Malformed) : Prop :=
  ∃ before word after, words = before ++ word :: after ∧ Clean before ∧ Offends before word why

/-- The words annotate a scope of the type: its parameters and its results are the types behind the two keywords. -/
structure Annotates (words : List String) (t : BlockType) : Prop where
  known : ∀ word ∈ words, word ∈ vocabulary
  opened : words.head? ≠ some "i32"
  params : t.params = List.replicate (typesBehind "param" words) .i32
  results : t.results = List.replicate (typesBehind "result" words) .i32

variable {words before after rest : List String} {word keyword : String} {why : Malformed} {part : Option Part}
  {t : BlockType}

theorem clean_nil : Clean [] := by
  intro before word after why split
  simp at split

/-- Nothing is wrong if the words are known and do not begin with a type: behind any other first word there is
a keyword before every type. -/
theorem clean_iff : Clean words ↔ (∀ word ∈ words, word ∈ vocabulary) ∧ words.head? ≠ some "i32" := by
  constructor
  · intro clean
    refine ⟨fun word member => ?_, fun begins => ?_⟩
    · obtain ⟨before, after, split⟩ := List.append_of_mem member
      exact Decidable.not_not.mp fun foreign => clean before word after _ split (.unknown foreign)
    · obtain ⟨after, rfl⟩ := List.head?_eq_some_iff.mp begins
      exact clean [] "i32" after _ rfl (.early ⟨List.not_mem_nil, List.not_mem_nil⟩)
  · rintro ⟨known, opened⟩ before word after why rfl offends
    cases offends with
    | unknown foreign => exact foreign (known word (by simp))
    | early noKeyword =>
      cases before with
      | nil => exact opened rfl
      | cons first before =>
        have inside : first ∈ vocabulary := known first (by simp)
        simp only [vocabulary, List.mem_cons, List.not_mem_nil, or_false] at inside
        rcases inside with rfl | rfl | rfl
        · exact noKeyword.1 List.mem_cons_self
        · exact noKeyword.2 List.mem_cons_self
        · exact opened rfl

theorem clean_concat : Clean (words ++ [word]) ↔ Clean words ∧ ∀ why, ¬ Offends words word why := by
  constructor
  · intro clean
    refine ⟨fun before other after why split => ?_, fun why => clean words word [] why rfl⟩
    exact clean before other (after ++ [word]) why (by rw [split, List.append_assoc, List.cons_append])
  · rintro ⟨clean, last⟩ before other after why split
    rcases List.eq_nil_or_concat after with rfl | ⟨after, final, rfl⟩
    · obtain ⟨rfl, same⟩ := List.append_inj' split rfl
      obtain rfl := List.singleton_inj.mp same
      exact last why
    · rw [List.concat_eq_append, ← List.cons_append, ← List.append_assoc] at split
      exact clean before other after why (List.append_inj' split rfl).1

theorem FirstOffence.concat (offence : FirstOffence words why) (word : String) :
    FirstOffence (words ++ [word]) why := by
  obtain ⟨before, other, after, rfl, clean, offends⟩ := offence
  exact ⟨before, other, after ++ [word], by simp, clean, offends⟩

/-- If anything is wrong with some words, then something is wrong first. -/
theorem clean_or_firstOffence (words : List String) : Clean words ∨ ∃ why, FirstOffence words why := by
  induction words using List.reverseRecOn with
  | nil => exact .inl clean_nil
  | append_singleton words word ih =>
    rcases ih with clean | ⟨why, offence⟩
    · by_cases offends : ∃ why, Offends words word why
      · obtain ⟨why, offends⟩ := offends
        exact .inr ⟨why, words, word, [], rfl, clean, offends⟩
      · exact .inl (clean_concat.mpr ⟨clean, not_exists.mp offends⟩)
    · exact .inr ⟨why, offence.concat word⟩

theorem keywordBefore?_concat : keywordBefore? (words ++ [word]) =
    if word = "param" ∨ word = "result" then some word else keywordBefore? words := by
  simp only [keywordBefore?, List.reverse_append, List.reverse_singleton, List.singleton_append, List.find?_cons]
  split <;> simp_all

theorem keywordBefore?_eq_none_iff : keywordBefore? words = none ↔ "param" ∉ words ∧ "result" ∉ words := by
  simp only [keywordBefore?, List.find?_eq_none, List.mem_reverse, Bool.or_eq_true, beq_iff_eq, not_or]
  exact ⟨fun none => ⟨fun member => (none _ member).1 rfl, fun member => (none _ member).2 rfl⟩,
    fun ⟨noParam, noResult⟩ word member => ⟨fun same => noParam (same ▸ member), fun same => noResult (same ▸ member)⟩⟩

theorem typesBehind_concat : typesBehind keyword (words ++ [word]) =
    typesBehind keyword words + if word = "i32" ∧ keywordBefore? words = some keyword then 1 else 0 := by
  have front : ∀ k ∈ List.range words.length,
      ((words ++ [word])[k]? == some "i32" && keywordBefore? ((words ++ [word]).take k) == some keyword) =
        (words[k]? == some "i32" && keywordBefore? (words.take k) == some keyword) := by
    intro k inside
    have bound : k < words.length := List.mem_range.mp inside
    rw [List.getElem?_append_left bound, List.take_append_of_le_length (Nat.le_of_lt bound)]
  rw [typesBehind, List.length_append, List.length_singleton, List.range_succ, List.countP_append,
    List.countP_congr fun k inside => by rw [front k inside]]
  simp [typesBehind, List.countP_cons]

/-- The types that the words put behind the two keywords. -/
def counted (words : List String) : BlockType where
  params := List.replicate (typesBehind "param" words) .i32
  results := List.replicate (typesBehind "result" words) .i32

/-- The types of one annotation followed by those of another one. -/
def append (t more : BlockType) : BlockType where
  params := t.params ++ more.params
  results := t.results ++ more.results

theorem append_empty (t : BlockType) : append t empty = t := by
  simp [append, empty]

theorem counted_concat_of_ne (other : word ≠ "i32") : counted (words ++ [word]) = counted words := by
  simp [counted, typesBehind_concat, other]

theorem append_cons {current : Part} (inside : keywordBefore? words = some current.label) (more : BlockType) :
    append (counted words) (cons current .i32 more) = append (counted (words ++ ["i32"])) more := by
  cases current <;>
    simp [counted, append, cons, typesBehind_concat, inside, Part.label, List.replicate_succ']

theorem ofWords_of_offends (inside : part.map Part.label = keywordBefore? words)
    (offends : Offends words word why) (rest : List String) : ofWords part (word :: rest) = .error why := by
  cases offends with
  | unknown foreign =>
    simp only [vocabulary, List.mem_cons, List.not_mem_nil, or_false, not_or] at foreign
    obtain ⟨noParam, noResult, noType⟩ := foreign
    rw [ofWords.eq_4 _ _ _ noParam noResult, ValueType.ofName_of_ne noType]
    rfl
  | early noKeyword =>
    rw [keywordBefore?_eq_none_iff.mpr noKeyword, Option.map_eq_none_iff] at inside
    rw [inside]
    rfl

/-- Behind words with which nothing is wrong, the reader is in the section of the nearest keyword and has read the
types that have been counted. -/
theorem ofWords_of_clean (clean : Clean words) : ∃ part : Option Part,
    part.map Part.label = keywordBefore? words ∧
      ∀ rest, ofWords none (words ++ rest) = append (counted words) <$> ofWords part rest := by
  induction words using List.reverseRecOn with
  | nil => exact ⟨none, rfl, fun rest => (id_map _).symm⟩
  | append_singleton words word ih =>
    obtain ⟨clean, last⟩ := clean_concat.mp clean
    obtain ⟨part, inside, read⟩ := ih clean
    have readOn (rest : List String) :
        ofWords none (words ++ [word] ++ rest) = append (counted words) <$> ofWords part (word :: rest) := by
      rw [List.append_assoc, List.singleton_append, read]
    by_cases known : word ∈ vocabulary
    · simp only [vocabulary, List.mem_cons, List.not_mem_nil, or_false] at known
      rcases known with rfl | rfl | rfl
      · refine ⟨some .params, by rw [keywordBefore?_concat]; rfl, fun rest => ?_⟩
        rw [readOn, counted_concat_of_ne (by decide)]
        exact congrArg _ (ofWords_label part .params rest)
      · refine ⟨some .results, by rw [keywordBefore?_concat]; rfl, fun rest => ?_⟩
        rw [readOn, counted_concat_of_ne (by decide)]
        exact congrArg _ (ofWords_label part .results rest)
      · cases part with
        | none => exact (last _ (.early (keywordBefore?_eq_none_iff.mp inside.symm))).elim
        | some current =>
          refine ⟨some current, by rw [keywordBefore?_concat]; exact inside, fun rest => ?_⟩
          have type : ofWords (some current) ("i32" :: rest) = cons current .i32 <$> ofWords (some current) rest :=
            ofWords_name current .i32 rest
          rw [readOn, type, ← comp_map]
          exact congrArg (· <$> _) (funext fun more => append_cons inside.symm more)
    · exact (last _ (.unknown known)).elim

theorem ofWords_eq_counted (clean : Clean words) : ofWords none words = .ok (counted words) := by
  obtain ⟨part, -, read⟩ := ofWords_of_clean clean
  have nothing : ofWords part [] = .ok empty := by cases part <;> rfl
  have whole := read []
  rw [List.append_nil, nothing] at whole
  rw [whole]
  exact congrArg Except.ok (append_empty _)

theorem FirstOffence.ofWords (offence : FirstOffence words why) : ofWords none words = .error why := by
  obtain ⟨before, word, after, rfl, clean, offends⟩ := offence
  obtain ⟨part, inside, read⟩ := ofWords_of_clean clean
  rw [read, ofWords_of_offends inside offends]
  rfl

/-- The words of an annotation are read as the type that they annotate a scope with. -/
theorem ofWords_eq_ok_iff : ofWords none words = .ok t ↔ Annotates words t := by
  constructor
  · intro read
    rcases clean_or_firstOffence words with clean | ⟨why, offence⟩
    · rw [ofWords_eq_counted clean, Except.ok.injEq] at read
      subst read
      obtain ⟨known, opened⟩ := clean_iff.mp clean
      exact ⟨known, opened, rfl, rfl⟩
    · rw [offence.ofWords] at read
      cases read
  · intro annotates
    have same : t = counted words := by
      rw [counted, ← annotates.params, ← annotates.results]
    rw [same, ofWords_eq_counted (clean_iff.mpr ⟨annotates.known, annotates.opened⟩)]

/-- Other words are refused for what is wrong first. -/
theorem ofWords_eq_error_iff : ofWords none words = .error why ↔ FirstOffence words why := by
  constructor
  · intro refused
    rcases clean_or_firstOffence words with clean | ⟨other, offence⟩
    · rw [ofWords_eq_counted clean] at refused
      cases refused
    · rw [offence.ofWords, Except.error.injEq] at refused
      exact refused ▸ offence
  · exact FirstOffence.ofWords

end BlockType

namespace Instruction

/-- The names that are instructions by themselves. -/
def plainNames : List (String × Instruction) :=
  [("nop", nop), ("else", otherwise), ("end", close), ("drop", drop), ("i32.eq", binary .eq), ("i32.ne", binary .ne),
    ("i32.lt_s", binary .lt), ("i32.gt_s", binary .gt), ("i32.le_s", binary .le), ("i32.ge_s", binary .ge),
    ("i32.add", binary .add), ("i32.sub", binary .sub), ("i32.mul", binary .mul), ("i32.div_s", binary .div)]

/-- The names that an index follows. -/
def indexedNames : List (String × (UInt32 → Instruction)) :=
  [("br", br), ("br_if", brIf), ("call", call), ("local.get", localGet), ("local.set", localSet),
    ("local.tee", localTee), ("global.get", globalGet), ("global.set", globalSet)]

/-- The names that an annotation follows. -/
def openerNames : List (String × ScopeKind) := [("block", .block), ("loop", .loop), ("if", .cond)]

/-- The words of an instruction. -/
inductive Spells : List String → Instruction → Prop
  | plain {name : String} {i : Instruction} (listed : (name, i) ∈ plainNames) : Spells [name] i
  | indexed {name numeral : String} {make : UInt32 → Instruction} {n : UInt32}
      (listed : (name, make) ∈ indexedNames) (denotes : Decimal.Unsigned numeral n.toNat) :
      Spells [name, numeral] (make n)
  | constant {literal : String} {v : Value} (isLiteral : Value.Literal literal v) :
      Spells ["i32.const", literal] (const v)
  | opener {name : String} {kind : ScopeKind} {header : List String} {t : BlockType}
      (listed : (name, kind) ∈ openerNames) (annotates : BlockType.Annotates header t) :
      Spells (name :: header) (enter kind t)

/-- The name belongs to the form. -/
inductive Listed : String → Form → Prop
  | plain {name : String} {i : Instruction} (listed : (name, i) ∈ plainNames) : Listed name (.plain i)
  | indexed {name : String} {make : UInt32 → Instruction} (listed : (name, make) ∈ indexedNames) :
      Listed name (.indexed make)
  | constant : Listed "i32.const" .constant
  | opener {name : String} {kind : ScopeKind} (listed : (name, kind) ∈ openerNames) : Listed name (.opener kind)

variable {name : String} {rest words : List String} {form : Form} {i : Instruction}

theorem listed_form (i : Instruction) : Listed i.name i.form := by
  cases i with
  | nop | otherwise | close | drop => exact .plain (by simp [plainNames, Instruction.name])
  | binary op => exact .plain (by cases op <;> simp [plainNames, Instruction.name, BinaryOp.name])
  | br | brIf | call | localGet | localSet | localTee | globalGet | globalSet =>
    exact .indexed (by simp [indexedNames, Instruction.name])
  | const => exact .constant
  | enter kind => exact .opener (by cases kind <;> simp [openerNames, Instruction.name, ScopeKind.name])

theorem named?_plain : ∀ entry ∈ plainNames, Form.named? entry.1 = some (.plain entry.2) := by
  intro entry member
  fin_cases member <;> rfl

theorem named?_indexed : ∀ entry ∈ indexedNames, Form.named? entry.1 = some (.indexed entry.2) := by
  intro entry member
  fin_cases member <;> rfl

theorem named?_opener : ∀ entry ∈ openerNames, Form.named? entry.1 = some (.opener entry.2) := by
  intro entry member
  fin_cases member <;> rfl

/-- A name is that of the form to which it belongs. -/
theorem named?_eq_some_iff : Form.named? name = some form ↔ Listed name form := by
  constructor
  · intro named
    obtain ⟨i, rfl, rfl⟩ := named?_eq_some_iff_form.mp named
    exact listed_form i
  · intro listed
    cases listed with
    | plain listed => exact named?_plain _ listed
    | indexed listed => exact named?_indexed _ listed
    | constant => rfl
    | opener listed => exact named?_opener _ listed

theorem ofWords_plain_eq_ok_iff {plain : Instruction} :
    (Form.plain plain).ofWords rest = .ok i ↔ rest = [] ∧ i = plain := by
  cases rest <;> simp [Form.ofWords, eq_comm]

theorem ofWords_constant_eq_ok_iff :
    Form.constant.ofWords rest = .ok i ↔ ∃ literal v, rest = [literal] ∧ Value.Literal literal v ∧ i = const v := by
  rw [Form.ofWords]
  simp only [bind_eq_ok_iff, soleWord_eq_ok_iff, Value.parse_eq_ok_iff, pure, Except.pure, Except.ok.injEq,
    eq_comm (b := i)]
  constructor
  · rintro ⟨literal, sole, v, read, isConst⟩
    exact ⟨literal, v, sole, read, isConst⟩
  · rintro ⟨literal, v, sole, read, isConst⟩
    exact ⟨literal, sole, v, read, isConst⟩

theorem ofWords_opener_eq_ok_iff {kind : ScopeKind} :
    (Form.opener kind).ofWords rest = .ok i ↔ ∃ t, BlockType.Annotates rest t ∧ i = enter kind t := by
  simp only [Form.ofWords, ← BlockType.ofWords_eq_ok_iff]
  cases BlockType.ofWords none rest <;> simp [Functor.map, Except.map, eq_comm]

theorem ofWords_opener_eq_error_iff {kind : ScopeKind} {why : Malformed} :
    (Form.opener kind).ofWords rest = .error why ↔ BlockType.FirstOffence rest why := by
  simp only [Form.ofWords, ← BlockType.ofWords_eq_error_iff]
  cases BlockType.ofWords none rest <;> simp [Functor.map, Except.map]

theorem ofWords_of_listed (listed : Listed name form) (rest : List String) :
    ofWords (name :: rest) = form.ofWords rest := by
  rw [ofWords, named?_eq_some_iff.mpr listed]

/-- Words are read as the instruction that they spell. -/
theorem ofWords_eq_ok_iff : ofWords words = .ok i ↔ Spells words i := by
  constructor
  · intro read
    cases words with
    | nil => cases read
    | cons name rest =>
      cases named : Form.named? name with
      | none =>
        rw [ofWords, named] at read
        cases read
      | some form =>
        have listed := named?_eq_some_iff.mp named
        rw [ofWords_of_listed listed] at read
        cases listed with
        | plain listed =>
          obtain ⟨rfl, rfl⟩ := ofWords_plain_eq_ok_iff.mp read
          exact .plain listed
        | indexed listed =>
          obtain ⟨numeral, n, rfl, index, rfl⟩ := ofWords_indexed_eq_ok_iff.mp read
          exact .indexed listed (Decimal.uint32?_eq_some_iff.mp index)
        | constant =>
          obtain ⟨literal, v, rfl, isLiteral, rfl⟩ := ofWords_constant_eq_ok_iff.mp read
          exact .constant isLiteral
        | opener listed =>
          obtain ⟨t, annotates, rfl⟩ := ofWords_opener_eq_ok_iff.mp read
          exact .opener listed annotates
  · intro spells
    cases spells with
    | plain listed =>
      rw [ofWords_of_listed (.plain listed)]
      exact ofWords_plain_eq_ok_iff.mpr ⟨rfl, rfl⟩
    | indexed listed denotes =>
      rw [ofWords_of_listed (.indexed listed)]
      exact ofWords_indexed_eq_ok_iff.mpr ⟨_, _, rfl, Decimal.uint32?_eq_some_iff.mpr denotes, rfl⟩
    | constant isLiteral =>
      rw [ofWords_of_listed .constant]
      exact ofWords_constant_eq_ok_iff.mpr ⟨_, _, rfl, isLiteral, rfl⟩
    | opener listed annotates =>
      rw [ofWords_of_listed (.opener listed)]
      exact ofWords_opener_eq_ok_iff.mpr ⟨_, annotates, rfl⟩

/-- A text has certain words, the maximal runs of characters that are neither blanks nor parentheses, and is read as
the instruction that they spell. If they begin with the name of a scope, the only other case is that something is
wrong with the annotation, and what is wrong first is the error. -/
theorem parse_eq_ok_iff_spells (text : String) : ∃ words,
    (∀ other, Text.Runs separates text.toList other ↔ other = words) ∧
      (∀ i, parse text = .ok i ↔ Spells words i) ∧
      ∀ name kind header, (name, kind) ∈ openerNames → words = name :: header →
        ∀ why, parse text = .error why ↔ BlockType.FirstOffence header why := by
  refine ⟨Text.wordsBy separates text, fun other => Text.runs_iff, fun i => ofWords_eq_ok_iff, ?_⟩
  intro name kind header listed split why
  rw [parse, split, ofWords_of_listed (.opener listed), ofWords_opener_eq_error_iff]

/-- Types behind repeated keywords add up, and an empty section adds none. -/
example : parse " if(result i32)param(result)i32(param i32 i32) " =
    .ok (enter .cond { params := [.i32, .i32], results := [.i32, .i32] }) := by
  rfl

end Instruction

end ScopeMachine
