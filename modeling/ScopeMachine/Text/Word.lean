/-! # Blanks and words

Program text is read word by word. A word is a maximal run of characters that separate nothing, so
any number of separators, also before the first and after the last word, means the same as one.
-/

namespace ScopeMachine.Text

/-- The code points with the Unicode property White_Space, as ranges with both ends included. -/
def blankRanges : List (Nat × Nat) :=
  [(0x09, 0x0d), (0x20, 0x20), (0x85, 0x85), (0xa0, 0xa0), (0x1680, 0x1680), (0x2000, 0x200a),
    (0x2028, 0x2029), (0x202f, 0x202f), (0x205f, 0x205f), (0x3000, 0x3000)]

/-- A blank is a character with the property White_Space. -/
def isBlank (c : Char) : Bool :=
  blankRanges.any fun (low, high) => low ≤ c.toNat && c.toNat ≤ high

/-- The word whose characters have been collected last one first, unless there are none. -/
def wordOf (collected : List Char) : List String :=
  if collected.isEmpty then [] else [String.ofList collected.reverse]

/-- The words of a text that begins inside the word collected so far. -/
def wordsAfter (separates : Char → Bool) (collected : List Char) : List Char → List String
  | [] => wordOf collected
  | c :: text =>
    if separates c then wordOf collected ++ wordsAfter separates [] text
    else wordsAfter separates (c :: collected) text

/-- The maximal runs of characters that do not separate. -/
def wordsBy (separates : Char → Bool) (text : String) : List String :=
  wordsAfter separates [] text.toList

/-- The words of a text between blanks. -/
def words (text : String) : List String := wordsBy isBlank text

/-- A separator ends the word before it, and the words after it are those of the rest. -/
theorem wordsAfter_append_cons (separates : Char → Bool) {c : Char}
    (separator : separates c = true) (collected before after : List Char) :
    wordsAfter separates collected (before ++ c :: after) =
      wordsAfter separates collected before ++ wordsAfter separates [] after := by
  induction before generalizing collected with
  | nil => simp [wordsAfter, separator]
  | cons b before ih =>
    by_cases split : separates b = true
    · simp [wordsAfter, split, ih]
    · simp [wordsAfter, split, ih]

/-- Characters that separate nothing make up one word. -/
theorem wordsAfter_of_all_not (separates : Char → Bool) (collected : List Char) {word : List Char}
    (joined : ∀ c ∈ word, separates c = false) :
    wordsAfter separates collected word = wordOf (word.reverse ++ collected) := by
  induction word generalizing collected with
  | nil => rfl
  | cons c word ih =>
    have here : separates c = false := joined c (List.mem_cons_self ..)
    have rest : ∀ d ∈ word, separates d = false := fun d member =>
      joined d (List.mem_cons_of_mem _ member)
    simp [wordsAfter, here, ih (c :: collected) rest]

/-- Every character that core calls whitespace is a blank. -/
theorem isBlank_of_isWhitespace {c : Char} (white : c.isWhitespace = true) : isBlank c = true := by
  have code : c = ' ' ∨ c = '\t' ∨ c = '\r' ∨ c = '\n' := by
    simpa [Char.isWhitespace, or_assoc] using white
  rcases code with rfl | rfl | rfl | rfl <;> decide

end ScopeMachine.Text
