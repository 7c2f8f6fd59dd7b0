import Mathlib.Data.Int.ModEq
import Mathlib.Data.List.TakeWhile
import ScopeMachine.Proofs.Document.Written
import ScopeMachine.Proofs.Numeral
import ScopeMachine.Tool.Run

/-! # Literals

The numerals that are literals of values, and the places where they are read. Wherever a value is given as a text,
in an instruction, for a global or as an argument of a run, exactly the literals are accepted
(`Value.parse_eq_ok_iff_literal`): the numerals of the integers from -2 ^ 31 up to but excluding 2 ^ 32, each for the
value with the same low 32 bits.
-/

namespace ScopeMachine

namespace Value

open Decimal

/-- A literal of a value: a numeral of a number with the same low 32 bits, which is in the range of the signed or of
the unsigned numbers of 32 bits. -/
def Literal (text : String) (v : Value) : Prop :=
  ∃ n : Int, Signed text n ∧ -2 ^ 31 ≤ n ∧ n < 2 ^ 32 ∧ v.toInt ≡ n [ZMOD 2 ^ 32]

variable {text : String} {v w : Value}

/-- Two values with the same low 32 bits are the same. -/
theorem eq_of_modEq (same : v.toInt ≡ w.toInt [ZMOD 2 ^ 32]) : v = w := by
  have := v.le_toInt
  have := v.toInt_lt
  have := w.le_toInt
  have := w.toInt_lt
  apply Int32.toInt.inj
  unfold Int.ModEq at same
  omega

/-- An unsigned word and the value with its bits are the same number up to multiples of 2 ^ 32. -/
theorem toInt_toInt32_modEq (n : UInt32) : n.toInt32.toInt ≡ n.toNat [ZMOD 2 ^ 32] := by
  have bits : n.toInt32.toInt = (n.toNat : Int).bmod (2 ^ 32) := BitVec.toInt_eq_toNat_bmod n.toBitVec
  rw [bits]
  exact Int.bmod_emod ..

/-- What is read as a signed numeral, or else as an unsigned one, is a literal. -/
theorem literal_of_read (read : int32? text = some v ∨ (uint32? text).map UInt32.toInt32 = some v) :
    Literal text v := by
  rcases read with signed | unsigned
  · have low := v.le_toInt
    have high := v.toInt_lt
    exact ⟨v.toInt, int32?_eq_some_iff.mp signed, low, by omega, Int.ModEq.refl _⟩
  · obtain ⟨n, read, rfl⟩ := Option.map_eq_some_iff.mp unsigned
    have high := n.toNat_lt
    exact ⟨n.toNat, .inl ⟨n.toNat, uint32?_eq_some_iff.mp read, rfl⟩, by omega, by omega, toInt_toInt32_modEq n⟩

theorem read_of_literal (literal : Literal text v) :
    int32? text = some v ∨ int32? text = none ∧ (uint32? text).map UInt32.toInt32 = some v := by
  obtain ⟨n, signed, low, high, bits⟩ := literal
  by_cases small : n < 2 ^ 31
  · have value : (Int32.ofInt n).toInt = n := Int32.toInt_ofInt_of_le low small
    obtain rfl : v = Int32.ofInt n := eq_of_modEq (by rwa [value])
    exact .inl (int32?_eq_some_iff.mpr (by rwa [value]))
  · obtain ⟨k, unsigned, rfl⟩ | ⟨k, digits, -, -, rfl⟩ := signed
    · right
      have size : k < UInt32.size := by
        change k < 4294967296
        omega
      have value : (UInt32.ofNat k).toNat = k := UInt32.toNat_ofNat_of_lt' size
      have read : uint32? text = some (UInt32.ofNat k) := uint32?_eq_some_iff.mpr (by rwa [value])
      refine ⟨?_, ?_⟩
      · rw [Option.eq_none_iff_forall_ne_some]
        intro w fits
        have := w.toInt_lt
        have same : integer? text = some w.toInt := integer?_eq_some_iff.mpr (int32?_eq_some_iff.mp fits)
        rw [integer?_eq_some_iff.mpr (.inl ⟨k, unsigned, rfl⟩), Option.some.injEq] at same
        omega
      · rw [read, Option.map_some, Option.some.injEq]
        refine eq_of_modEq ((toInt_toInt32_modEq _).trans ?_)
        rw [value]
        exact bits.symm
    · omega

theorem parse_eq_ok_iff : Value.parse .i32 text = .ok v ↔ Literal text v := by
  have read : Value.parse .i32 text = .ok v ↔ (int32? text <|> (uint32? text).map UInt32.toInt32) = some v := by
    rw [Value.parse]
    cases int32? text <|> (uint32? text).map UInt32.toInt32 with
    | some w => simp only [Except.ok.injEq, Option.some.injEq]
    | none => simp only [reduceCtorEq]
  rw [read]
  constructor
  · intro read
    apply literal_of_read
    cases signed : int32? text with
    | some w =>
      rw [signed] at read
      exact .inl read
    | none =>
      rw [signed] at read
      exact .inr read
  · intro literal
    rcases read_of_literal literal with signed | ⟨unsigned, read⟩
    · rw [signed]
      rfl
    · rw [unsigned]
      exact read

/-- What is not a literal is refused for one reason. -/
theorem parse_eq_error_iff : Value.parse .i32 text = .error .invalidValue ↔ ∀ v, ¬ Literal text v := by
  simp only [← parse_eq_ok_iff]
  rw [Value.parse]
  split <;> simp

/-- A literal consists of digits and a sign. -/
theorem Literal.chars (literal : Literal text v) : ∀ c ∈ text.toList, c = '+' ∨ c = '-' ∨ c.isDigit = true := by
  obtain ⟨n, ⟨k, ⟨digits, denotes, spelled | spelled⟩, -⟩ | ⟨k, digits, denotes, spelled, -⟩, -⟩ := literal
  · rw [spelled]
    exact fun c member => .inr (.inr (denotes.isDigit c member))
  · rw [spelled]
    exact List.forall_mem_cons.mpr ⟨.inl rfl, fun c member => .inr (.inr (denotes.isDigit c member))⟩
  · rw [spelled]
    exact List.forall_mem_cons.mpr ⟨.inr (.inl rfl), fun c member => .inr (.inr (denotes.isDigit c member))⟩

theorem Literal.noColon (literal : Literal text v) : ':' ∉ text.toList := by
  intro colon
  rcases literal.chars ':' colon with plus | minus | digit
  · exact absurd plus (by decide)
  · exact absurd minus (by decide)
  · exact absurd digit (by decide)

end Value

namespace Tool

open Value

variable {arg literal type : String} {v : Value}

theorem splitArgument_of_noColon (noColon : ':' ∉ arg.toList) : splitArgument arg = (arg, "i32") := by
  have all : arg.toList.dropWhile (· ≠ ':') = [] := by
    rw [List.dropWhile_eq_nil_iff]
    intro c member
    exact decide_eq_true fun colon => noColon (colon ▸ member)
  simp only [splitArgument, all]

/-- An argument is split at its first colon. -/
theorem splitArgument_of_colon (noColon : ':' ∉ literal.toList) :
    splitArgument (literal ++ ":" ++ type) = (literal, type) := by
  have before : ∀ c ∈ literal.toList, decide (c ≠ ':') = true := fun c member =>
    decide_eq_true fun colon => noColon (colon ▸ member)
  have chars : (literal ++ ":" ++ type).toList = literal.toList ++ ':' :: type.toList := by simp
  have rest : (literal ++ ":" ++ type).toList.dropWhile (· ≠ ':') = ':' :: type.toList := by
    rw [chars, List.dropWhile_append_of_pos before]
    rfl
  have front : (literal ++ ":" ++ type).toList.takeWhile (· ≠ ':') = literal.toList := by
    rw [chars, List.takeWhile_append_of_pos before]
    exact List.append_nil _
  simp only [splitArgument, rest, front, String.ofList_toList]

/-- An argument without a colon, or else what stands before and behind its first colon. -/
theorem noColon_or_exists_split (arg : String) : ':' ∉ arg.toList ∨
    ∃ literal type, ':' ∉ literal.toList ∧ arg = literal ++ ":" ++ type := by
  by_cases colon : ':' ∈ arg.toList
  · obtain ⟨front, back, split, first⟩ := List.eq_append_cons_of_mem colon
    refine .inr ⟨String.ofList front, String.ofList back, by rwa [String.toList_ofList], ?_⟩
    apply String.toList_inj.mp
    simp [split]
  · exact .inl colon

theorem parseArgument_of_noColon (noColon : ':' ∉ arg.toList) :
    parseArgument arg = .ok v ↔ Literal arg v := by
  have known : ValueType.ofName "i32" = .ok .i32 := rfl
  rw [← parse_eq_ok_iff]
  simp only [parseArgument, splitArgument_of_noColon noColon, known]
  cases Value.parse .i32 arg <;> simp

/-- There is one type, and it has one name. -/
theorem parseArgument_of_colon (noColon : ':' ∉ literal.toList) :
    parseArgument (literal ++ ":" ++ type) = .ok v ↔ type = "i32" ∧ Literal literal v := by
  rw [← parse_eq_ok_iff]
  simp only [parseArgument, splitArgument_of_colon noColon]
  by_cases known : type = "i32"
  · subst known
    have known : ValueType.ofName "i32" = .ok .i32 := rfl
    simp only [known, true_and]
    cases Value.parse .i32 literal <;> simp
  · simp [ValueType.ofName_of_ne known, known]

/-- A literal is accepted as an argument by itself and with its type behind a colon. -/
theorem parseArgument_eq_ok_iff :
    parseArgument arg = .ok v ↔ Literal arg v ∨ ∃ literal, arg = literal ++ ":i32" ∧ Literal literal v := by
  constructor
  · intro read
    rcases noColon_or_exists_split arg with noColon | ⟨literal, type, noColon, rfl⟩
    · exact .inl ((parseArgument_of_noColon noColon).mp read)
    · obtain ⟨rfl, isLiteral⟩ := (parseArgument_of_colon noColon).mp read
      exact .inr ⟨literal, by rw [String.append_assoc]; rfl, isLiteral⟩
  · rintro (isLiteral | ⟨literal, rfl, isLiteral⟩)
    · exact (parseArgument_of_noColon isLiteral.noColon).mpr isLiteral
    · have read : parseArgument (literal ++ ":" ++ "i32") = .ok v :=
        (parseArgument_of_colon isLiteral.noColon).mpr ⟨rfl, isLiteral⟩
      rwa [String.append_assoc] at read

/-- With its type behind it, only a literal is accepted, which has no type behind it yet. -/
theorem parseArgument_append_type : parseArgument (arg ++ ":i32") = .ok v ↔ Literal arg v := by
  rcases noColon_or_exists_split arg with noColon | ⟨literal, type, noColon, rfl⟩
  · have read : parseArgument (arg ++ ":" ++ "i32") = .ok v ↔ "i32" = "i32" ∧ Literal arg v :=
      parseArgument_of_colon noColon
    rw [String.append_assoc] at read
    exact read.trans (and_iff_right rfl)
  · have colon : ':' ∈ (literal ++ ":" ++ type).toList := by simp
    have different : type ++ ":i32" ≠ "i32" := by
      intro same
      have length := congrArg String.length same
      rw [String.length_append] at length
      change type.length + 4 = 3 at length
      omega
    rw [String.append_assoc, parseArgument_of_colon noColon]
    exact ⟨fun read => (different read.1).elim, fun isLiteral => (isLiteral.noColon colon).elim⟩

end Tool

namespace Value

/-- Exactly the literals of a value are accepted for it: as the literal of an instruction, as the value of a global,
and as an argument of a run, where the type may follow. Every other text is refused as an invalid value. -/
theorem parse_eq_ok_iff_literal (text : String) :
    (∀ v, Value.parse .i32 text = .ok v ↔ Literal text v) ∧
      (Value.parse .i32 text = .error .invalidValue ↔ ∀ v, ¬ Literal text v) ∧
      (∀ v, GlobalEntry.parse { type := "i32", value := text } = .ok v ↔ Literal text v) ∧
      (∀ v, Literal text v → ':' ∉ text.toList) ∧
      (∀ v, Tool.parseArgument text = .ok v ↔
        Literal text v ∨ ∃ literal, text = literal ++ ":i32" ∧ Literal literal v) ∧
      (∀ v, Tool.parseArgument (text ++ ":i32") = .ok v ↔ Literal text v) ∧
      ∀ v : Value, Tool.parseArgument v.tagged = .ok v := by
  refine ⟨fun v => parse_eq_ok_iff, parse_eq_error_iff, fun v => parse_eq_ok_iff, fun v => Literal.noColon,
    fun v => Tool.parseArgument_eq_ok_iff, fun v => Tool.parseArgument_append_type, fun v => ?_⟩
  have literal : Literal (toString v) v := parse_eq_ok_iff.mp (parse_toString v)
  exact Tool.parseArgument_append_type.mpr literal

/-- The largest unsigned numeral is a literal of -1. -/
example : Value.parse .i32 "+004294967295" = .ok (-1) := by
  rfl

end Value

end ScopeMachine
