import ScopeMachine.Proofs.Literal
import ScopeMachine.Proofs.Tool.Session

/-! # The wording of a run

What the run tool says about a run that is over, and what can be read off it: the results from the lines that list them
(`Tool.text_resultLines_injective`), and from the message of a trap its cause and the number of steps before it
(`Tool.trapMessage_injective`).
-/

namespace ScopeMachine

namespace Tool

open Session

/-- The message of a run that is not over when the limit is reached. -/
def limitMessage (limit : Nat) : String := s!"Step limit of {limit} reached without finishing"

/-- The message of a run that traps after a number of successful steps. -/
def trapMessage (e : Error) (k : Nat) : String := s!"Execution failed after {k} steps: {e.message}"

section Messages
variable {e other : Error} {k n limit : Nat} {c : Char}

theorem toList_limitMessage (limit : Nat) : (limitMessage limit).toList =
    "Step limit of ".toList ++ (limit.repr.toList ++ " reached without finishing".toList) := by
  have text : limitMessage limit = "Step limit of " ++ limit.repr ++ " reached without finishing" := rfl
  rw [text, String.toList_append, String.toList_append, List.append_assoc]

theorem isPlain_of_mem_limitMessage (member : c ∈ (limitMessage limit).toList) : Text.isPlain c = true := by
  have front : ∀ c ∈ "Step limit of ".toList, Text.isPlain c = true := List.all_eq_true.mp (by decide)
  have back : ∀ c ∈ " reached without finishing".toList, Text.isPlain c = true := List.all_eq_true.mp (by decide)
  rw [toList_limitMessage, List.mem_append, List.mem_append] at member
  rcases member with inside | digit | inside
  · exact front c inside
  · exact Text.isPlain_of_isDigit (Decimal.isDigit_of_mem_repr digit)
  · exact back c inside

theorem toList_trapMessage (e : Error) (k : Nat) : (trapMessage e k).toList =
    "Execution failed after ".toList ++ (k.repr.toList ++ ' ' :: ("steps: ".toList ++ e.message.toList)) := by
  have text : trapMessage e k = "Execution failed after " ++ k.repr ++ " steps: " ++ e.message := rfl
  rw [text, String.toList_append, String.toList_append, String.toList_append, List.append_assoc, List.append_assoc]
  rfl

theorem isPlain_of_mem_trapMessage (member : c ∈ (trapMessage e k).toList) : Text.isPlain c = true := by
  have front : ∀ c ∈ "Execution failed after ".toList, Text.isPlain c = true := List.all_eq_true.mp (by decide)
  have middle : ∀ c ∈ "steps: ".toList, Text.isPlain c = true := List.all_eq_true.mp (by decide)
  rw [toList_trapMessage] at member
  simp only [List.mem_append, List.mem_cons] at member
  rcases member with inside | digit | rfl | inside | inside
  · exact front c inside
  · exact Text.isPlain_of_isDigit (Decimal.isDigit_of_mem_repr digit)
  · decide
  · exact middle c inside
  · exact Error.isPlain_of_mem_message inside

/-- The message of a trap tells the error and the number of steps. -/
theorem trapMessage_injective (same : trapMessage e k = trapMessage other n) : e = other ∧ k = n := by
  have chars := congrArg String.toList same
  rw [toList_trapMessage, toList_trapMessage] at chars
  obtain ⟨count, rest⟩ := Text.append_cons_inj (Decimal.notMem_repr (by decide) k) (Decimal.notMem_repr (by decide) n)
    (List.append_cancel_left chars)
  exact ⟨Error.message_injective (String.toList_inj.mp (List.append_cancel_left rest)),
    Decimal.repr_injective (String.toList_inj.mp count)⟩

theorem limitMessage_ne_trapMessage : limitMessage limit ≠ trapMessage e k := by
  intro same
  have first := congrArg (fun text : String => text.toList.head?) same
  simp only [toList_limitMessage, toList_trapMessage, List.head?_append] at first
  have letters : some 'S' = some 'E' := first
  cases letters

theorem quotes_injective {text text' : String}
    (same : "Error: \"" ++ text ++ "\"" = "Error: \"" ++ text' ++ "\"") : text = text' := by
  have chars := congrArg String.toList same
  simp only [String.toList_append] at chars
  exact String.toList_inj.mp (List.append_cancel_left (List.append_cancel_right chars))

end Messages

/-- The line of a result. -/
def resultLine (result : Value × Nat) : String := s!"  [{result.2}] {result.1.tagged}"

/-- The lines that list the values that a run has returned. -/
def resultLines (results : List Value) : List String :=
  if results.isEmpty then [] else "Result:" :: results.zipIdx.map resultLine

section Results
variable {v w : Value} {values others : List Value}

theorem notMem_tagged {c : Char} (other : c ∉ "+-:i32".toList) (noDigit : c.isDigit = false) : c ∉ v.tagged.toList := by
  have literal : Value.Literal (toString v) v := Value.parse_eq_ok_iff.mp (Value.parse_toString v)
  rw [Value.tagged, String.toList_append, List.mem_append]
  rintro (inside | inside)
  · rcases literal.chars c inside with rfl | rfl | digit
    · exact other (by decide)
    · exact other (by decide)
    · rw [noDigit] at digit
      cases digit
  · exact other (List.mem_cons_of_mem _ (List.mem_cons_of_mem _ inside))

theorem tagged_injective (same : v.tagged = w.tagged) : v = w := by
  have chars := congrArg String.toList same
  simp only [Value.tagged, String.toList_append] at chars
  have numeral : toString v = toString w := String.toList_inj.mp (List.append_cancel_right chars)
  exact Except.ok.inj ((Value.parse_toString v).symm.trans (numeral ▸ Value.parse_toString w))

theorem toList_resultLine (result : Value × Nat) : (resultLine result).toList =
    "  [".toList ++ (result.2.repr.toList ++ ']' :: ' ' :: result.1.tagged.toList) := by
  have text : resultLine result = "  [" ++ result.2.repr ++ "] " ++ result.1.tagged := rfl
  rw [text, String.toList_append, String.toList_append, String.toList_append, List.append_assoc, List.append_assoc]
  rfl

theorem resultLine_injective : Function.Injective resultLine := by
  rintro ⟨v, i⟩ ⟨w, j⟩ same
  have chars := congrArg String.toList same
  rw [toList_resultLine, toList_resultLine] at chars
  obtain ⟨index, rest⟩ := Text.append_cons_inj (Decimal.notMem_repr (by decide) i) (Decimal.notMem_repr (by decide) j)
    (List.append_cancel_left chars)
  have tagged : v.tagged = w.tagged := String.toList_inj.mp (List.cons.inj rest).2
  rw [tagged_injective tagged, Decimal.repr_injective (String.toList_inj.mp index)]

theorem newline_notMem_resultLine (result : Value × Nat) : '\n' ∉ (resultLine result).toList := by
  rw [toList_resultLine]
  simp only [List.mem_append, List.mem_cons, not_or]
  exact ⟨by decide, Decimal.notMem_repr (by decide) _, by decide, by decide, notMem_tagged (by decide) (by decide)⟩

theorem resultLines_cons (v : Value) (values : List Value) :
    resultLines (v :: values) = "Result:" :: (v :: values).zipIdx.map resultLine := rfl

/-- Results can be told from the lines that list them. -/
theorem resultLines_injective (same : resultLines values = resultLines others) : values = others := by
  cases values with
  | nil =>
    cases others with
    | nil => rfl
    | cons w others => cases same
  | cons v values =>
    cases others with
    | nil => cases same
    | cons w others =>
      rw [resultLines_cons, resultLines_cons] at same
      have listed := resultLine_injective.list_map (List.cons.inj same).2
      have results := congrArg (List.map Prod.fst) listed
      rwa [List.zipIdx_map_fst, List.zipIdx_map_fst] at results

theorem text_resultLines_injective
    (same : Session.text (resultLines values).toArray = Session.text (resultLines others).toArray) :
    values = others := by
  have whole (values : List Value) : ∀ line ∈ resultLines values, '\n' ∉ line.toList := by
    cases values with
    | nil => exact List.forall_mem_nil _
    | cons v values =>
      rw [resultLines_cons]
      refine List.forall_mem_cons.mpr ⟨by decide, fun line member => ?_⟩
      obtain ⟨result, -, rfl⟩ := List.mem_map.mp member
      exact newline_notMem_resultLine result
  exact resultLines_injective (text_injective (whole values) (whole others) same)

end Results

end Tool

end ScopeMachine
