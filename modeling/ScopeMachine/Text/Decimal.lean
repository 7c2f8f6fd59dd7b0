/-! # Decimal numerals

A numeral is one optional sign and then one or more of the digits 0 to 9; leading zeros are free.
Only a signed numeral may carry a minus. The readers for 32-bit words refuse a numeral that denotes
a number outside their range and never reduce it.
-/

namespace ScopeMachine.Decimal

/-- The number that a non-empty run of digits denotes. -/
def digits? (cs : List Char) : Option Nat :=
  if cs ≠ [] ∧ cs.all Char.isDigit then some (Nat.ofDigitChars 10 cs 0) else none

/-- Reads an unsigned numeral, which may carry a plus. -/
def natural? (text : String) : Option Nat :=
  match text.toList with
  | '+' :: cs => digits? cs
  | cs => digits? cs

/-- Reads a signed numeral. -/
def integer? (text : String) : Option Int :=
  match text.toList with
  | '-' :: cs => (digits? cs).map fun n => -(n : Int)
  | '+' :: cs => (digits? cs).map Int.ofNat
  | cs => (digits? cs).map Int.ofNat

/-- Reads an unsigned numeral below 2 ^ 32. -/
def uint32? (text : String) : Option UInt32 := do
  let n ← natural? text
  if n < UInt32.size then some (UInt32.ofNat n) else none

/-- Reads a signed numeral from -2 ^ 31 up to but excluding 2 ^ 31. -/
def int32? (text : String) : Option Int32 := do
  let n ← integer? text
  if Int32.minValue.toInt ≤ n ∧ n ≤ Int32.maxValue.toInt then some (Int32.ofInt n) else none

/-- The digits that write a number are read back as that number. -/
@[simp] theorem digits?_toDigits (n : Nat) : digits? (Nat.toDigits 10 n) = some n := by
  have digits : (Nat.toDigits 10 n).all Char.isDigit := by
    simpa using fun c member => Nat.isDigit_of_mem_toDigits (by decide) (by decide) member
  simp [digits?, digits, Nat.toDigits_ne_nil, Nat.ofDigitChars_toDigits]

/-- The numeral of a number is read back as that number. -/
@[simp] theorem natural?_repr (n : Nat) : natural? n.repr = some n := by
  unfold natural?
  rw [Nat.toList_repr]
  split
  · next cs plus =>
    have digit : '+'.isDigit = true :=
      Nat.isDigit_of_mem_toDigits (by decide) (by decide) (plus ▸ List.mem_cons_self ..)
    exact absurd digit (by decide)
  · exact digits?_toDigits n

/-- The numeral of a word is read back as that word. -/
@[simp] theorem uint32?_toString (n : UInt32) : uint32? (toString n) = some n := by
  have bound : n.toNat < UInt32.size := n.toNat_lt_size
  have read : natural? (toString n) = some n.toNat := natural?_repr n.toNat
  simp only [uint32?, read, bind, Option.bind_some, bound, ↓reduceIte, UInt32.ofNat_toNat]

end ScopeMachine.Decimal
