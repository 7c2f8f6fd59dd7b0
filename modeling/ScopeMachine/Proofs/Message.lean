import Mathlib.Data.List.Basic
import Mathlib.Tactic.IntervalCases
import ScopeMachine.Proofs.Document.Written
import ScopeMachine.Proofs.Numeral
import ScopeMachine.Text.Quoted

/-! # Messages

The wording of an error tells which error it is (`Error.message_injective`), and nothing in it has to be escaped when
it is quoted (`Error.isPlain_of_mem_message`, `Text.quoted_of_plain`).
-/

namespace ScopeMachine

namespace Text

/-- What stands before the first of certain characters, and what stands behind it, can be told from the whole. -/
theorem append_cons_inj {c : Char} {cs ds rest rest' : List Char} (no : c ∉ cs) (no' : c ∉ ds)
    (same : cs ++ c :: rest = ds ++ c :: rest') : cs = ds ∧ rest = rest' := by
  induction cs generalizing ds with
  | nil =>
    cases ds with
    | nil => exact ⟨rfl, (List.cons.inj same).2⟩
    | cons d ds => exact (no' ((List.cons.inj same).1 ▸ List.mem_cons_self)).elim
  | cons d cs ih =>
    cases ds with
    | nil => exact (no ((List.cons.inj same).1 ▸ List.mem_cons_self)).elim
    | cons d' ds =>
      obtain ⟨rfl, tails⟩ := List.cons.inj same
      obtain ⟨rfl, rest⟩ := ih (List.not_mem_of_not_mem_cons no) (List.not_mem_of_not_mem_cons no') tails
      exact ⟨rfl, rest⟩

/-- A character that quoted text shows as it is: one of ASCII from the space on, without the quote and the
backslash. -/
def isPlain (c : Char) : Bool := 0x20 ≤ c.toNat && c.toNat ≤ 0x7e && c != '"' && c != '\\'

theorem hiddenRanges_outside : ∀ range ∈ hiddenRanges.toList, range.2 < 0x20 ∨ 0x7e < range.1 := by
  decide +kernel

theorem isHidden_of_isPlain {c : Char} (plain : isPlain c = true) : isHidden c = false := by
  have outside := hiddenRanges_outside
  simp only [isPlain, Bool.and_eq_true, decide_eq_true_eq] at plain
  obtain ⟨⟨⟨low, high⟩, -⟩, -⟩ := plain
  unfold isHidden
  -- Only where the ranges lie matters from here on, not which they are.
  generalize hiddenRanges = ranges at outside ⊢
  rw [Array.any_eq_false']
  rintro ⟨first, last⟩ member inside
  have apart : last < 0x20 ∨ 0x7e < first := outside _ (Array.mem_toList_iff.mpr member)
  simp only [Bool.and_eq_true, decide_eq_true_eq] at inside
  omega

theorem quoteChar_of_isPlain {c : Char} (plain : isPlain c = true) : quoteChar c = c.toString := by
  have shown := isHidden_of_isPlain plain
  unfold quoteChar
  split
  iterate 6 exact absurd plain (by decide)
  exact if_neg (Bool.eq_false_iff.mp shown)

/-- A plain text is quoted without escapes. -/
theorem quoted_of_plain {text : String} (plain : ∀ c ∈ text.toList, isPlain c = true) :
    quoted text = "\"" ++ text ++ "\"" := by
  have shown : text.toList.map quoteChar = text.toList.map Char.toString :=
    List.map_congr_left fun c member => quoteChar_of_isPlain (plain c member)
  have joined : String.join (text.toList.map Char.toString) = text := by
    apply String.toList_inj.mp
    simp [List.flatMap_map]
  rw [quoted, shown, joined]

theorem isPlain_of_isDigit {c : Char} (digit : c.isDigit = true) : isPlain c = true := by
  obtain ⟨d, small, rfl⟩ := Decimal.exists_digitChar digit
  interval_cases d <;> decide

end Text

namespace Decimal

/-- Numbers with the same numeral are the same. -/
theorem repr_injective {n k : Nat} (same : n.repr = k.repr) : n = k := by
  have digits : Nat.toDigits 10 n = Nat.toDigits 10 k := by rw [← Nat.toList_repr, same, Nat.toList_repr]
  rw [← Nat.ofDigitChars_ten_toDigits (n := n), digits, Nat.ofDigitChars_ten_toDigits]

theorem notMem_repr {c : Char} (other : c.isDigit = false) (n : Nat) : c ∉ n.repr.toList := by
  intro member
  rw [isDigit_of_mem_repr member] at other
  cases other

end Decimal

namespace Malformed

/-- The refusal with the given wording. -/
def ofMessage? (text : String) : Option Malformed :=
  [unknownInstruction, illegalOpcode, missingImmediate, unexpectedImmediate, invalidImmediate, invalidValueType,
    invalidValue, invalidBlockType, unknownFunctionName, duplicateExport, invalidDocument].find? (·.message == text)

theorem ofMessage?_message (why : Malformed) : ofMessage? why.message = some why := by
  cases why <;> rfl

theorem message_injective {why other : Malformed} (same : why.message = other.message) : why = other :=
  Option.some.inj ((ofMessage?_message why).symm.trans (same ▸ ofMessage?_message other))

end Malformed

namespace Error

variable {e other : Error}

/-- The error with the given cause, and about the index if it is about one. -/
def ofCause? (text : String) (index : UInt32) : Option Error :=
  ([stackUnderflow, unknownLocal index, unknownGlobal index, unknownFunction index, unknownLabel index, divisionByZero,
    callDepthExhausted, argumentCount, busy].find? (·.cause == text)).or ((Malformed.ofMessage? text).map malformed)

theorem ofCause?_cause (e : Error) : ofCause? e.cause (e.index?.getD 0) = some e := by
  cases e with
  | malformed why => cases why <;> rfl
  | _ => rfl

/-- What follows the cause. -/
def suffix (e : Error) : List Char := (e.index?.map fun index => ' ' :: index.toNat.repr.toList).getD []

theorem toList_message (e : Error) : e.message.toList = e.cause.toList ++ e.suffix := by
  unfold message suffix
  cases e.index? with
  | none => exact (List.append_nil _).symm
  | some index =>
    rw [String.toList_append, String.toList_append, List.append_assoc]
    rfl

/-- The digits at the end of a message are those of the index. -/
theorem takeWhile_message (e : Error) : e.message.toList.reverse.takeWhile Char.isDigit =
    (e.index?.map fun index => index.toNat.repr.toList.reverse).getD [] := by
  have noDigit : e.cause.toList.reverse.takeWhile Char.isDigit = [] := by
    cases e with
    | malformed why => cases why <;> rfl
    | _ =>
      rw [cause]
      rfl
  rw [toList_message, suffix, List.reverse_append]
  cases e.index? with
  | none => exact noDigit
  | some index =>
    have digits : ∀ c ∈ index.toNat.repr.toList.reverse, c.isDigit = true := fun c member =>
      Decimal.isDigit_of_mem_repr (List.mem_reverse.mp member)
    have space : ¬ (' ').isDigit = true := by decide
    simp only [Option.map_some, Option.getD_some, List.reverse_cons, List.append_assoc, List.singleton_append]
    rw [List.takeWhile_append_of_pos digits, List.takeWhile_cons_of_neg space, List.append_nil]

theorem index?_eq_of_message (same : e.message = other.message) : e.index? = other.index? := by
  have digits := takeWhile_message e
  rw [same, takeWhile_message] at digits
  have some_ (index : UInt32) : index.toNat.repr.toList.reverse ≠ [] := by
    rw [ne_eq, List.reverse_eq_nil_iff, Nat.toList_repr]
    exact Nat.toDigits_ne_nil
  cases left : e.index? with
  | none =>
    cases right : other.index? with
    | none => rfl
    | some index =>
      rw [left, right] at digits
      exact (some_ index digits).elim
  | some index =>
    cases right : other.index? with
    | none =>
      rw [left, right] at digits
      exact (some_ index digits.symm).elim
    | some index' =>
      rw [left, right] at digits
      have numeral : index'.toNat.repr = index.toNat.repr := String.toList_inj.mp (List.reverse_injective digits)
      rw [UInt32.toNat_inj.mp (Decimal.repr_injective numeral)]

/-- Errors with the same wording are the same. -/
theorem message_injective (same : e.message = other.message) : e = other := by
  have index := index?_eq_of_message same
  have cause : e.cause = other.cause := by
    have chars := congrArg String.toList same
    rw [toList_message, toList_message, suffix, suffix, index] at chars
    exact String.toList_inj.mp (List.append_cancel_right chars)
  have read := ofCause?_cause e
  rw [cause, index, ofCause?_cause] at read
  exact (Option.some.inj read).symm

/-- The wording of an error is plain text. -/
theorem isPlain_of_mem_message {c : Char} (member : c ∈ e.message.toList) : Text.isPlain c = true := by
  have plain : ∀ c ∈ e.cause.toList, Text.isPlain c = true := by
    rw [← List.all_eq_true]
    cases e with
    | malformed why => cases why <;> decide
    | _ =>
      rw [cause]
      decide
  rw [toList_message, suffix] at member
  rcases List.mem_append.mp member with inside | inside
  · exact plain c inside
  · cases about : e.index? with
    | none =>
      rw [about] at inside
      cases inside
    | some index =>
      rw [about] at inside
      rcases List.mem_cons.mp inside with rfl | digit
      · decide
      · exact Text.isPlain_of_isDigit (Decimal.isDigit_of_mem_repr digit)

end Error

end ScopeMachine
