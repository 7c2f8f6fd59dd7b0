import Mathlib.Data.List.Induction
import ScopeMachine.Text.Decimal

/-! # Numerals

What numerals there are and which number each of them denotes, as a grammar, of which the readers of decimal
numerals are shown to read all and nothing else: `natural?_eq_some_iff` and `integer?_eq_some_iff` for numbers of
any size, `uint32?_eq_some_iff` and `int32?_eq_some_iff` for those that fit in 32 bits.
-/

namespace ScopeMachine

namespace Decimal

/-- One or more digits and the number that they denote: the last digit counts one, and each digit counts ten times as
much as it would in the place behind it. -/
inductive Denotes : List Char → Nat → Prop
  | digit {d : Nat} (small : d < 10) : Denotes [d.digitChar] d
  | append {cs : List Char} {n d : Nat} (front : Denotes cs n) (small : d < 10) :
      Denotes (cs ++ [d.digitChar]) (10 * n + d)

/-- A numeral without a minus, which may have a plus. -/
def Unsigned (text : String) (n : Nat) : Prop :=
  ∃ digits, Denotes digits n ∧ (text.toList = digits ∨ text.toList = '+' :: digits)

/-- A numeral, which may have either sign. -/
def Signed (text : String) (n : Int) : Prop :=
  (∃ k : Nat, Unsigned text k ∧ n = k) ∨ ∃ k digits, Denotes digits k ∧ text.toList = '-' :: digits ∧ n = -(k : Int)

variable {cs : List Char} {c : Char} {text : String} {n : Nat}

theorem exists_digitChar (digit : c.isDigit = true) : ∃ d < 10, c = d.digitChar := by
  simp only [Char.isDigit, Bool.and_eq_true, decide_eq_true_eq] at digit
  have low : 48 ≤ c.toNat := digit.1
  have high : c.toNat ≤ 57 := digit.2
  refine ⟨c.toNat - 48, by omega, Char.toNat_inj.mp ?_⟩
  rw [Nat.toNat_digitChar_of_lt_ten (by omega)]
  omega

namespace Denotes

theorem isDigit (denotes : Denotes cs n) : ∀ c ∈ cs, c.isDigit = true := by
  have digit {d : Nat} (small : d < 10) : d.digitChar.isDigit = true := by simp [small]
  induction denotes with
  | digit small => simpa using digit small
  | append _ small ih => simpa using fun c member => member.elim (ih c) (by rintro rfl; exact digit small)

theorem nonempty (denotes : Denotes cs n) : cs ≠ [] := by
  cases denotes <;> simp

theorem ofDigitChars (denotes : Denotes cs n) : Nat.ofDigitChars 10 cs 0 = n := by
  induction denotes with
  | digit small =>
    rw [Nat.ofDigitChars_cons_digitChar_of_lt_ten small, Nat.ofDigitChars_nil, Nat.mul_zero, Nat.zero_add]
  | append _ small ih =>
    rw [Nat.ofDigitChars_append, ih, Nat.ofDigitChars_cons_digitChar_of_lt_ten small, Nat.ofDigitChars_nil]

/-- Digits denote what reading them digit by digit comes to. -/
theorem of_isDigit (some : cs ≠ []) (digits : ∀ c ∈ cs, c.isDigit = true) :
    Denotes cs (Nat.ofDigitChars 10 cs 0) := by
  induction cs using List.reverseRecOn with
  | nil => exact (some rfl).elim
  | append_singleton front last ih =>
    obtain ⟨d, small, rfl⟩ := exists_digitChar (digits last (by simp))
    rw [Nat.ofDigitChars_append, Nat.ofDigitChars_cons_digitChar_of_lt_ten small, Nat.ofDigitChars_nil]
    cases front with
    | nil => simpa using Denotes.digit small
    | cons c front =>
      exact .append (ih (List.cons_ne_nil _ _) fun c member => digits c (List.mem_append_left _ member)) small

end Denotes

theorem digits?_eq_some_iff_denotes : digits? cs = some n ↔ Denotes cs n := by
  unfold digits?
  rw [Option.ite_none_right_eq_some, List.all_eq_true, Option.some.injEq]
  constructor
  · rintro ⟨⟨some, digits⟩, rfl⟩
    exact .of_isDigit some digits
  · intro denotes
    exact ⟨⟨denotes.nonempty, denotes.isDigit⟩, denotes.ofDigitChars⟩

theorem natural?_eq_some_iff : natural? text = some n ↔ Unsigned text n := by
  unfold natural? Unsigned
  split
  · rename_i cs signed
    rw [digits?_eq_some_iff_denotes, signed]
    constructor
    · intro denotes
      exact ⟨cs, denotes, .inr rfl⟩
    · rintro ⟨digits, denotes, rfl | same⟩
      · exact absurd (denotes.isDigit '+' List.mem_cons_self) (by decide)
      · exact (List.cons.inj same).2 ▸ denotes
  · rename_i unsigned
    rw [digits?_eq_some_iff_denotes]
    constructor
    · intro denotes
      exact ⟨_, denotes, .inl rfl⟩
    · rintro ⟨digits, denotes, rfl | signed⟩
      · exact denotes
      · exact (unsigned digits signed).elim

theorem Unsigned.not_minus (unsigned : Unsigned text n) (cs : List Char) : text.toList ≠ '-' :: cs := by
  intro minus
  obtain ⟨digits, denotes, spelled | spelled⟩ := unsigned
  · rw [minus] at spelled
    exact absurd (denotes.isDigit '-' (spelled ▸ List.mem_cons_self)) (by decide)
  · rw [minus] at spelled
    exact absurd (List.cons.inj spelled).1 (by decide)

/-- A numeral without a minus is read with a sign as it is without one. -/
theorem integer?_of_not_minus (noMinus : ∀ cs, text.toList ≠ '-' :: cs) :
    integer? text = (natural? text).map Int.ofNat := by
  unfold integer? natural?
  split
  · rename_i cs minus
    exact (noMinus cs minus).elim
  · rename_i cs plus
    rw [plus]
    rfl
  · rename_i noPlus
    split
    · rename_i cs plus
      exact (noPlus cs plus).elim
    · rfl

theorem integer?_of_minus (minus : text.toList = '-' :: cs) :
    integer? text = (digits? cs).map fun n : Nat => -(n : Int) := by
  unfold integer?
  simp only [minus]
  cases digits? cs <;> rfl

theorem integer?_eq_some_iff {n : Int} : integer? text = some n ↔ Signed text n := by
  by_cases hasMinus : ∃ cs, text.toList = '-' :: cs
  · obtain ⟨cs, minus⟩ := hasMinus
    rw [integer?_of_minus minus, Option.map_eq_some_iff]
    constructor
    · rintro ⟨k, read, rfl⟩
      exact .inr ⟨k, cs, digits?_eq_some_iff_denotes.mp read, minus, rfl⟩
    · rintro (⟨k, unsigned, -⟩ | ⟨k, digits, denotes, same, rfl⟩)
      · exact (unsigned.not_minus cs minus).elim
      · obtain rfl : cs = digits := (List.cons.inj (minus.symm.trans same)).2
        exact ⟨k, digits?_eq_some_iff_denotes.mpr denotes, rfl⟩
  · have noMinus := not_exists.mp hasMinus
    rw [integer?_of_not_minus noMinus, Option.map_eq_some_iff]
    constructor
    · rintro ⟨k, read, rfl⟩
      exact .inl ⟨k, natural?_eq_some_iff.mp read, rfl⟩
    · rintro (⟨k, unsigned, rfl⟩ | ⟨k, digits, -, minus, -⟩)
      · exact ⟨k, natural?_eq_some_iff.mpr unsigned, rfl⟩
      · exact (noMinus digits minus).elim

/-- An index is read from the unsigned numerals of its number. -/
theorem uint32?_eq_some_iff {index : UInt32} : uint32? text = some index ↔ Unsigned text index.toNat := by
  simp only [uint32?, bind, Option.bind_eq_some_iff, Option.ite_none_right_eq_some, Option.some.injEq,
    natural?_eq_some_iff]
  constructor
  · rintro ⟨n, unsigned, small, rfl⟩
    rwa [UInt32.toNat_ofNat_of_lt' small]
  · intro unsigned
    exact ⟨index.toNat, unsigned, index.toNat_lt_size, UInt32.ofNat_toNat⟩

theorem int32?_eq_some_iff {v : Int32} : int32? text = some v ↔ Signed text v.toInt := by
  simp only [int32?, bind, Option.bind_eq_some_iff, Option.ite_none_right_eq_some, Option.some.injEq,
    integer?_eq_some_iff]
  constructor
  · rintro ⟨n, signed, ⟨low, high⟩, rfl⟩
    rwa [Int32.toInt_ofInt_of_le low (Int.lt_add_one_of_le high)]
  · intro signed
    exact ⟨v.toInt, signed, ⟨v.minValue_le_toInt, v.toInt_le⟩, v.ofInt_toInt⟩

end Decimal

end ScopeMachine
