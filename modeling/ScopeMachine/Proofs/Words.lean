import Mathlib.Data.List.TakeWhile
import ScopeMachine.Text.Word

/-! # Words of texts

`Text.IsWord` is what a word is, and `isWord_of_mem_wordsBy` says that texts are cut into such words. What
the words of a text are follows from those of its parts on both sides of a separator
(`wordsBy_of_toList`). A text that is cut at more characters is cut into the pieces of its words
(`flatMap_wordsBy`), and it has a single word if that word stands among separators
(`wordsBy_eq_singleton_iff`). The words of a text are the maximal runs of characters in it that do not
separate (`runs_iff`).
-/

namespace ScopeMachine.Text

variable {separates other : Char → Bool} {text word : String}

/-- A separator between two texts separates their words. -/
theorem wordsBy_of_toList {text left right : String} {c : Char} (separator : separates c = true)
    (split : text.toList = left.toList ++ c :: right.toList) :
    wordsBy separates text = wordsBy separates left ++ wordsBy separates right := by
  unfold wordsBy
  rw [split, wordsAfter_append_cons separates separator]

theorem wordsBy_append_space (space : separates ' ' = true) (left right : String) :
    wordsBy separates (left ++ " " ++ right) = wordsBy separates left ++ wordsBy separates right :=
  wordsBy_of_toList space (by simp)

/-- A word holds at least one character, and none that separates words. -/
structure IsWord (separates : Char → Bool) (word : String) : Prop where
  nonempty : word ≠ ""
  joined : ∀ c ∈ word.toList, separates c = false

instance (separates : Char → Bool) (word : String) : Decidable (IsWord separates word) :=
  decidable_of_iff ((!word.toList.isEmpty && word.toList.all (!separates ·)) = true) (by
    simp only [Bool.and_eq_true, Bool.not_eq_true', List.isEmpty_eq_false_iff, List.all_eq_true, ne_eq,
      String.toList_eq_nil_iff]
    exact ⟨fun ⟨nonempty, joined⟩ => ⟨nonempty, joined⟩, fun ⟨nonempty, joined⟩ => ⟨nonempty, joined⟩⟩)

theorem IsWord.wordsBy {word : String} (isWord : IsWord separates word) :
    wordsBy separates word = [word] := by
  have some : word.toList ≠ [] := fun none => isWord.nonempty (String.toList_eq_nil_iff.mp none)
  unfold Text.wordsBy
  rw [wordsAfter_of_all_not separates [] isWord.joined]
  simp [wordOf, some]

theorem IsWord.mono {separates other : Char → Bool} {word : String} (isWord : IsWord separates word)
    (fewer : ∀ c, separates c = false → other c = false) : IsWord other word :=
  ⟨isWord.nonempty, fun c member => fewer c (isWord.joined c member)⟩

/-- The words of texts with spaces in between are the words of each of them. -/
theorem wordsBy_intercalate (space : separates ' ' = true) (texts : List String) :
    wordsBy separates (" ".intercalate texts) = texts.flatMap (wordsBy separates) := by
  induction texts with
  | nil => rfl
  | cons first rest ih =>
    cases rest with
    | nil => simp
    | cons second rest =>
      rw [String.intercalate_cons_cons, wordsBy_append_space space, ih]
      rfl

theorem wordsBy_of_words (space : separates ' ' = true) {words : List String}
    (areWords : ∀ word ∈ words, IsWord separates word) :
    wordsBy separates (" ".intercalate words) = words := by
  rw [wordsBy_intercalate space, List.flatMap_def,
    List.map_congr_left fun word member => (areWords word member).wordsBy, ← List.flatMap_def,
    List.flatMap_singleton']

theorem isBlank_of_isDigit {c : Char} (digit : c.isDigit = true) : isBlank c = false := by
  simp only [Char.isDigit, Bool.and_eq_true, decide_eq_true_eq] at digit
  have low : 48 ≤ c.toNat := digit.1
  have high : c.toNat ≤ 57 := digit.2
  simp [isBlank, blankRanges]
  omega

theorem isWord_of_mem_wordOf {collected : List Char} (joined : ∀ c ∈ collected, separates c = false)
    (member : word ∈ wordOf collected) : IsWord separates word := by
  unfold wordOf at member
  split at member
  · cases member
  · rename_i nonempty
    obtain rfl := List.mem_singleton.mp member
    refine ⟨by simpa using nonempty, fun c inside => joined c ?_⟩
    simpa using inside

theorem isWord_of_mem_wordsAfter {collected cs : List Char} (joined : ∀ c ∈ collected, separates c = false)
    (member : word ∈ wordsAfter separates collected cs) : IsWord separates word := by
  induction cs generalizing collected with
  | nil => exact isWord_of_mem_wordOf joined member
  | cons c cs ih =>
    unfold wordsAfter at member
    split at member
    · rcases List.mem_append.mp member with ended | later
      · exact isWord_of_mem_wordOf joined ended
      · exact ih (List.forall_mem_nil _) later
    · rename_i joins
      exact ih (List.forall_mem_cons.mpr ⟨Bool.eq_false_iff.mpr joins, joined⟩) member

/-- The words of a text are words. -/
theorem isWord_of_mem_wordsBy (member : word ∈ wordsBy separates text) : IsWord separates word :=
  isWord_of_mem_wordsAfter (List.forall_mem_nil _) member

theorem flatMap_wordOf (collected : List Char) :
    (wordOf collected).flatMap (wordsBy separates) = wordsAfter separates [] collected.reverse := by
  cases collected with
  | nil => rfl
  | cons c collected => simp [wordOf, wordsBy]

theorem flatMap_wordsAfter (more : ∀ c, other c = true → separates c = true) (collected cs : List Char) :
    (wordsAfter other collected cs).flatMap (wordsBy separates) =
      wordsAfter separates [] (collected.reverse ++ cs) := by
  induction cs generalizing collected with
  | nil => rw [wordsAfter, flatMap_wordOf, List.append_nil]
  | cons c cs ih =>
    rw [wordsAfter]
    split
    · rename_i separator
      rw [List.flatMap_append, flatMap_wordOf, ih, wordsAfter_append_cons separates (more c separator)]
      rfl
    · rw [ih, List.reverse_cons, List.append_assoc]
      rfl

/-- Where more characters separate words, the words are those of the words between fewer separators. -/
theorem flatMap_wordsBy (more : ∀ c, other c = true → separates c = true) (text : String) :
    (wordsBy other text).flatMap (wordsBy separates) = wordsBy separates text :=
  flatMap_wordsAfter more [] text.toList

/-- Only separators leave nothing behind. -/
theorem wordsAfter_eq_nil_iff {collected cs : List Char} :
    wordsAfter separates collected cs = [] ↔ collected = [] ∧ ∀ c ∈ cs, separates c = true := by
  induction cs generalizing collected with
  | nil => simp [wordsAfter, wordOf]
  | cons c cs ih =>
    by_cases separator : separates c = true
    · simp [wordsAfter, separator, ih, wordOf]
    · simp [wordsAfter, separator, ih]

theorem wordOf_eq_singleton_iff {collected : List Char} :
    wordOf collected = [word] ↔ collected ≠ [] ∧ word.toList = collected.reverse := by
  unfold wordOf
  cases collected with
  | nil => simp
  | cons c collected => simp [← String.toList_inj, eq_comm]

/-- A single word is one run of characters among separators; if it has begun already with what is collected,
nothing separates it from the rest. -/
theorem exists_of_wordsAfter_eq_singleton {collected cs : List Char}
    (sole : wordsAfter separates collected cs = [word]) :
    ∃ before rest after, cs = before ++ rest ++ after ∧ word.toList = collected.reverse ++ rest ∧
      (∀ c ∈ before ++ after, separates c = true) ∧ (collected ≠ [] → before = []) := by
  induction cs generalizing collected with
  | nil => exact ⟨[], [], [], rfl, by simpa using (wordOf_eq_singleton_iff.mp sole).2, nofun, fun _ => rfl⟩
  | cons c cs ih =>
    rw [wordsAfter] at sole
    split at sole
    · rename_i separator
      cases collected with
      | nil =>
        have sole : wordsAfter separates [] cs = [word] := sole
        obtain ⟨before, rest, after, rfl, whole, separators, -⟩ := ih sole
        exact ⟨c :: before, rest, after, rfl, whole, List.forall_mem_cons.mpr ⟨separator, separators⟩,
          fun begun => (begun rfl).elim⟩
      | cons d collected =>
        obtain ⟨ended, none⟩ := List.cons.inj sole
        obtain ⟨-, separators⟩ := wordsAfter_eq_nil_iff.mp none
        have whole : word.toList = (d :: collected).reverse := by rw [← ended, String.toList_ofList]
        exact ⟨[], [], c :: cs, rfl, by simpa using whole, List.forall_mem_cons.mpr ⟨separator, separators⟩,
          fun _ => rfl⟩
    · obtain ⟨before, rest, after, rfl, whole, separators, begun⟩ := ih sole
      obtain rfl := begun (List.cons_ne_nil _ _)
      exact ⟨[], c :: rest, after, rfl, by simpa using whole, separators, fun _ => rfl⟩

theorem wordsAfter_of_separators {before : List Char} (separators : ∀ c ∈ before, separates c = true)
    (cs : List Char) : wordsAfter separates [] (before ++ cs) = wordsAfter separates [] cs := by
  induction before with
  | nil => rfl
  | cons c before ih =>
    obtain ⟨separator, separators⟩ := List.forall_mem_cons.mp separators
    rw [List.cons_append, wordsAfter, if_pos separator, ih separators]
    rfl

/-- A text has a single word if the word stands among separators. -/
theorem wordsBy_eq_singleton_iff : wordsBy separates text = [word] ↔ IsWord separates word ∧
    ∃ before after, text.toList = before ++ word.toList ++ after ∧ ∀ c ∈ before ++ after, separates c = true := by
  constructor
  · intro sole
    obtain ⟨before, rest, after, split, whole, separators, -⟩ := exists_of_wordsAfter_eq_singleton sole
    refine ⟨isWord_of_mem_wordsBy (sole ▸ List.mem_singleton_self word), before, after, ?_, separators⟩
    rw [split, whole, List.reverse_nil, List.nil_append]
  · rintro ⟨isWord, before, after, split, separators⟩
    obtain ⟨leading, trailing⟩ := List.forall_mem_append.mp separators
    have alone : wordsAfter separates [] word.toList = [word] := isWord.wordsBy
    rw [wordsBy, split, List.append_assoc, wordsAfter_of_separators leading]
    cases after with
    | nil => rw [List.append_nil, alone]
    | cons c after =>
      obtain ⟨separator, trailing⟩ := List.forall_mem_cons.mp trailing
      rw [wordsAfter_append_cons separates separator, alone, wordsAfter_eq_nil_iff.mpr ⟨rfl, trailing⟩]
      rfl

/-- Words are the maximal runs of characters that do not separate, from the first to the last. -/
inductive Runs (separates : Char → Bool) : List Char → List String → Prop
  | nil : Runs separates [] []
  | separator {c : Char} {cs : List Char} {words : List String} (separator : separates c = true)
      (rest : Runs separates cs words) : Runs separates (c :: cs) words
  /-- A run goes on up to the next separator or the end. -/
  | run {word : String} {cs : List Char} {words : List String} (isWord : IsWord separates word)
      (maximal : ∀ c ∈ cs.head?, separates c = true) (rest : Runs separates cs words) :
      Runs separates (word.toList ++ cs) (word :: words)

/-- A word that goes up to a separator is the first word. -/
theorem wordsAfter_run {cs : List Char} (isWord : IsWord separates word)
    (maximal : ∀ c ∈ cs.head?, separates c = true) :
    wordsAfter separates [] (word.toList ++ cs) = word :: wordsAfter separates [] cs := by
  have alone : wordsAfter separates [] word.toList = [word] := isWord.wordsBy
  cases cs with
  | nil =>
    rw [List.append_nil, alone]
    rfl
  | cons c cs =>
    have separator : separates c = true := maximal c rfl
    rw [wordsAfter_append_cons separates separator, alone, wordsAfter, if_pos separator]
    rfl

theorem Runs.wordsAfter {cs : List Char} {words : List String} (runs : Runs separates cs words) :
    wordsAfter separates [] cs = words := by
  induction runs with
  | nil => rfl
  | separator separator _ ih =>
    rw [Text.wordsAfter, if_pos separator, ih]
    rfl
  | run isWord maximal _ ih => rw [wordsAfter_run isWord maximal, ih]

/-- Every text has its runs. The induction is on the length, since a run takes up many characters at once. -/
theorem runs_wordsAfter (cs : List Char) : Runs separates cs (wordsAfter separates [] cs) := by
  induction length : cs.length using Nat.strongRecOn generalizing cs with
  | ind n ih =>
    subst length
    cases cs with
    | nil => exact .nil
    | cons c cs =>
      by_cases separator : separates c = true
      · rw [wordsAfter, if_pos separator]
        exact .separator separator (ih cs.length (Nat.lt_succ_self _) cs rfl)
      · let word := String.ofList ((c :: cs).takeWhile (!separates ·))
        let rest := (c :: cs).dropWhile (!separates ·)
        have joins : (!separates c) = true := by simpa using separator
        have chars : word.toList = c :: cs.takeWhile (!separates ·) := by
          rw [String.toList_ofList, List.takeWhile, joins]
        have split : word.toList ++ rest = c :: cs := by
          rw [String.toList_ofList, List.takeWhile_append_dropWhile]
        have isWord : IsWord separates word := by
          refine ⟨fun none => ?_, fun d member => ?_⟩
          · rw [none] at chars
            cases chars
          · rw [String.toList_ofList] at member
            simpa using List.mem_takeWhile_imp member
        have maximal : ∀ d ∈ rest.head?, separates d = true := by
          intro d first
          have stops := List.head?_dropWhile_not (!separates ·) (c :: cs)
          rw [Option.mem_def.mp first] at stops
          simpa using stops
        have shorter : rest.length < (c :: cs).length := by
          rw [← split, chars, List.length_append, List.length_cons]
          omega
        rw [← split, wordsAfter_run isWord maximal]
        exact .run isWord maximal (ih rest.length shorter rest rfl)

/-- A text has the words that it is cut into, and no others. -/
theorem runs_iff {words : List String} : Runs separates text.toList words ↔ words = wordsBy separates text := by
  constructor
  · intro runs
    exact runs.wordsAfter.symm
  · rintro rfl
    exact runs_wordsAfter text.toList

end ScopeMachine.Text
