import ScopeMachine.Document.Instantiate
import ScopeMachine.Proofs.Form
import ScopeMachine.Proofs.Words

/-! # What is written is read back

Values, block types and instructions are read back from their texts as what they were. Each text is
a sequence of words (`Instruction.wordsBy_text`), and the words determine the instruction
(`Instruction.ofWords_words`). A line of a body is read the same way whatever functions can be named
in it (`Document.parseLine_written`), because the operand of a written call is always an index.
-/

namespace ScopeMachine

namespace Decimal

theorem isDigit_of_mem_repr {n : Nat} {c : Char} (member : c ∈ n.repr.toList) : c.isDigit = true := by
  rw [Nat.toList_repr] at member
  exact Nat.isDigit_of_mem_toDigits (by decide) (by decide) member

/-- The numeral of an integer is read back as that integer. -/
theorem integer?_repr (n : Int) : integer? n.repr = some n := by
  cases n with
  | ofNat n =>
    have digit {c : Char} {cs : List Char} (first : n.repr.toList = c :: cs) : c.isDigit = true :=
      isDigit_of_mem_repr (first ▸ List.mem_cons_self)
    change integer? n.repr = _
    unfold integer?
    split
    · rename_i minus
      exact absurd (digit minus) (by decide)
    · rename_i plus
      exact absurd (digit plus) (by decide)
    · rw [Nat.toList_repr, digits?_toDigits]
      rfl
  | negSucc n =>
    have written : (Int.negSucc n).repr.toList = '-' :: Nat.toDigits 10 (n + 1) := by
      rw [← Nat.toList_repr]
      exact String.toList_append
    unfold integer?
    rw [written]
    simp only [digits?_toDigits]
    rfl

/-- The numeral of a value is read back as that value. -/
@[simp] theorem int32?_toString (v : Int32) : int32? (toString v) = some v := by
  have read : integer? (toString v) = some v.toInt := integer?_repr v.toInt
  have bounds : Int32.minValue.toInt ≤ v.toInt ∧ v.toInt ≤ Int32.maxValue.toInt :=
    ⟨v.minValue_le_toInt, v.toInt_le⟩
  simp only [int32?, read, bind, Option.bind_some, bounds, and_self, ↓reduceIte, Int32.ofInt_toInt]

end Decimal

@[simp] theorem Value.parse_toString (v : Value) : Value.parse .i32 (toString v) = .ok v := by
  simp only [Value.parse, Decimal.int32?_toString]
  rfl

namespace Instruction

open Text

/-- Numerals are words. -/
theorem isWord_of_numeral {word : String} (nonempty : word ≠ "")
    (numeral : ∀ c ∈ word.toList, c = '-' ∨ c = '+' ∨ c.isDigit = true) : IsWord separates word where
  nonempty := nonempty
  joined c member := by
    rcases numeral c member with rfl | rfl | digit
    · decide
    · decide
    · have open_ : c ≠ '(' := by rintro rfl; cases digit
      have close : c ≠ ')' := by rintro rfl; cases digit
      simp [separates, isBlank_of_isDigit digit, open_, close]

theorem isWord_repr (n : Nat) : IsWord separates n.repr := by
  refine isWord_of_numeral ?_ fun c member => .inr (.inr (Decimal.isDigit_of_mem_repr member))
  intro none
  have digits := Nat.toList_repr (n := n)
  rw [none] at digits
  exact Nat.toDigits_ne_nil digits.symm

theorem isWord_intRepr (n : Int) : IsWord separates n.repr := by
  cases n with
  | ofNat n => exact isWord_repr n
  | negSucc n =>
    have written : (Int.negSucc n).repr.toList = '-' :: (n + 1).repr.toList := String.toList_append
    refine isWord_of_numeral ?_ ?_
    · intro none
      rw [none] at written
      cases written
    · intro c member
      rw [written] at member
      rcases List.mem_cons.mp member with rfl | member
      · exact .inl rfl
      · exact .inr (.inr (Decimal.isDigit_of_mem_repr member))

theorem isWord_text (immediate : Immediate) : IsWord separates immediate.text := by
  cases immediate with
  | value v => exact isWord_intRepr v.toInt
  | index n => exact isWord_repr n.toNat

theorem isWord_name (i : Instruction) : IsWord separates i.name := by
  have kinds (kind : ScopeKind) : IsWord separates kind.name := by cases kind <;> decide
  have operators (op : BinaryOp) : IsWord separates op.name := by cases op <;> decide
  cases i with
  | enter kind => exact kinds kind
  | binary op => exact operators op
  | _ =>
    simp only [name]
    decide

end Instruction

namespace BlockType

/-- The words of a written section. -/
def Part.words (part : Part) (types : List ValueType) : List String :=
  if types.isEmpty then [] else part.label :: types.map ValueType.name

/-- The words of a written annotation. -/
def words (t : BlockType) : List String := Part.params.words t.params ++ Part.results.words t.results

open Instruction Text

private theorem isWord_section (part : Part) (types : List ValueType) :
    ∀ word ∈ part.label :: types.map ValueType.name, IsWord separates word := by
  intro word member
  rcases List.mem_cons.mp member with rfl | member
  · cases part <;> decide
  · obtain ⟨type, -, rfl⟩ := List.mem_map.mp member
    cases type
    decide

private theorem wordsBy_parenthesized (text : String) :
    wordsBy separates ("(" ++ text ++ ")") = wordsBy separates text := by
  have opening : wordsBy separates ("(" ++ text ++ ")") =
      wordsBy separates "" ++ wordsBy separates (text ++ ")") :=
    wordsBy_of_toList (c := '(') (by decide) (by simp)
  have closing : wordsBy separates (text ++ ")") = wordsBy separates text ++ wordsBy separates "" :=
    wordsBy_of_toList (c := ')') (by decide) (by simp)
  rw [opening, closing]
  exact List.append_nil _

theorem flatMap_writePart (part : Part) (types : List ValueType) :
    (writePart part types).flatMap (wordsBy separates) = part.words types := by
  unfold writePart Part.words
  split
  · rfl
  · rw [List.flatMap_singleton, wordsBy_parenthesized,
      wordsBy_of_words (by decide) (isWord_section part types)]

theorem wordsBy_text (t : BlockType) : wordsBy separates t.text = t.words := by
  unfold text words
  rw [wordsBy_intercalate (by decide), List.flatMap_append, flatMap_writePart, flatMap_writePart]

/-- A keyword opens its section, whichever was open before. -/
theorem ofWords_label (before : Option Part) (part : Part) (rest : List String) :
    ofWords before (part.label :: rest) = ofWords (some part) rest := by
  cases part
  · exact ofWords.eq_2 _ _
  · exact ofWords.eq_3 _ _

theorem ofWords_name (part : Part) (type : ValueType) (rest : List String) :
    ofWords (some part) (type.name :: rest) = cons part type <$> ofWords (some part) rest := by
  cases type
  exact ofWords.eq_4 _ _ _ nofun nofun

/-- Types are read into the section that has been opened last. -/
theorem ofWords_types (part : Part) (types : List ValueType) (rest : List String) :
    ofWords (some part) (types.map ValueType.name ++ rest) =
      (fun t => types.foldr (cons part) t) <$> ofWords (some part) rest := by
  induction types with
  | nil => exact (id_map _).symm
  | cons type types ih =>
    rw [List.map_cons, List.cons_append, ofWords_name, ih, ← comp_map]
    rfl

/-- Behind a section the words are read as they are behind any other one. -/
theorem ofWords_section {rest : List String} {t : BlockType} (read : ∀ before, ofWords before rest = .ok t)
    (before : Option Part) (part : Part) (types : List ValueType) :
    ofWords before (part.words types ++ rest) = .ok (types.foldr (cons part) t) := by
  cases types with
  | nil => exact read before
  | cons type types =>
    have opens : ofWords before (part.words (type :: types) ++ rest) =
        ofWords (some part) ((type :: types).map ValueType.name ++ rest) := ofWords_label before part _
    rw [opens, ofWords_types, read]
    rfl

private theorem foldr_cons (t : BlockType) :
    t.params.foldr (cons .params) (t.results.foldr (cons .results) empty) = t := by
  obtain ⟨params, results⟩ := t
  have inner : results.foldr (cons .results) empty = ⟨[], results⟩ := by
    induction results with
    | nil => rfl
    | cons type results ih => rw [List.foldr_cons, ih]; rfl
  dsimp only
  rw [inner]
  induction params with
  | nil => rfl
  | cons type params ih => rw [List.foldr_cons, ih]; rfl

theorem ofWords_words (t : BlockType) : ofWords none t.words = .ok t := by
  have nothing (before : Option Part) : ofWords before [] = .ok empty := by cases before <;> rfl
  have results (before : Option Part) := ofWords_section nothing before .results t.results
  simp only [List.append_nil] at results
  rw [words, ofWords_section results, foldr_cons]

theorem words_of_isEmpty {t : BlockType} (none : t.isEmpty = true) : t.words = [] := by
  simp only [isEmpty, Bool.and_eq_true] at none
  simp only [words, Part.words, none, ↓reduceIte, List.append_nil]

end BlockType

namespace Instruction

open Text

/-- What stands behind the name, word by word. -/
def operandWords (i : Instruction) : List String :=
  match i.immediate?, i.blockType? with
  | some immediate, _ => [immediate.text]
  | none, some type => type.words
  | none, none => []

theorem wordsBy_operandText (i : Instruction) :
    i.operandText.elim [] (wordsBy separates) = i.operandWords := by
  unfold operandText operandWords
  cases i.immediate? with
  | some immediate => exact (isWord_text immediate).wordsBy
  | none =>
    cases i.blockType? with
    | none => rfl
    | some type =>
      dsimp only
      split
      · rename_i empty
        exact (BlockType.words_of_isEmpty empty).symm
      · exact BlockType.wordsBy_text type

/-- The words of a written instruction are its name and those of its operand. -/
theorem wordsBy_text (i : Instruction) : wordsBy separates i.text = i.name :: i.operandWords := by
  rw [← wordsBy_operandText]
  unfold text
  cases i.operandText with
  | none => exact (isWord_name i).wordsBy
  | some operand =>
    dsimp only
    rw [wordsBy_append_space (by decide), (isWord_name i).wordsBy]
    rfl

theorem ofWords_words (i : Instruction) : ofWords (i.name :: i.operandWords) = .ok i := by
  have read : i.form.ofWords i.operandWords = .ok i := by
    cases i with
    | enter kind type =>
      change enter kind <$> BlockType.ofWords none type.words = _
      rw [BlockType.ofWords_words]
      rfl
    | const v =>
      change (Value.parse .i32 (toString v) >>= fun v => .ok (const v)) = _
      rw [Value.parse_toString]
      rfl
    | nop | otherwise | close | drop | binary _ => rfl
    | br n | brIf n | call n | localGet n | localSet n | localTee n | globalGet n | globalSet n =>
      change (parseIndex (toString n) >>= _) = _
      rw [parseIndex, Decimal.uint32?_toString]
      rfl
  rw [ofWords, named?_name]
  exact read

/-- An instruction is read back from its text. -/
theorem parse_written (i : Instruction) : parse i.text = .ok i := by
  rw [parse, wordsBy_text, ofWords_words]

end Instruction

namespace Document

open Text

private theorem isWord_isBlank {word : String} (isWord : IsWord Instruction.separates word) :
    IsWord isBlank word :=
  isWord.mono fun c joins => by
    simp only [Instruction.separates, Bool.or_eq_false_iff] at joins
    exact joins.1.1

/-- Between blanks alone, the first word of a written instruction is its name. -/
theorem words_text (i : Instruction) : words i.text = i.name :: i.operandText.elim [] words := by
  have isWord := isWord_isBlank i.isWord_name
  unfold Instruction.text
  cases i.operandText with
  | none => exact isWord.wordsBy
  | some operand =>
    dsimp only
    rw [words, wordsBy_append_space (by decide), isWord.wordsBy]
    rfl

/-- Only calls have the name that a line must begin with to name a function. -/
theorem exists_eq_call {i : Instruction} (named : i.name = "call") : ∃ index, i = .call index := by
  have known := i.named?_name
  rw [named] at known
  have isCall : Instruction.Form.indexed .call = i.form := Option.some.inj known
  cases i with
  | call index => exact ⟨index, rfl⟩
  | br | brIf | localGet | localSet | localTee | globalGet | globalSet =>
    injection isCall with same
    cases congrFun same 0
  | _ => cases isCall

/-- A line that holds a written instruction is read as that instruction, whatever functions can be named
in it. -/
theorem parseLine_written (names : List (String × UInt32)) (i : Instruction) :
    parseLine names i.text = .ok i := by
  have own := i.parse_written
  unfold parseLine
  split
  · rename_i target found
    rw [words_text] at found
    obtain ⟨index, rfl⟩ := exists_eq_call (List.cons.inj found).1
    have operand : words (toString index) = [target] := (List.cons.inj found).2
    have alone : words (toString index) = [toString index] :=
      (isWord_isBlank (Instruction.isWord_text (.index index))).wordsBy
    obtain rfl : toString index = target := (List.cons.inj (alone.symm.trans operand)).1
    rw [Decimal.uint32?_toString]
    exact own
  · exact own

end Document

end ScopeMachine
