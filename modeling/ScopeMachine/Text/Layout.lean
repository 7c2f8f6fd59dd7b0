/-! # Columns of text

Listings align numbers to the right of a column and pad text to a column's width. A text that is
already wider than its column is kept whole. Columns have fixed widths; a width that is only known when
a line is written must not be too large.
-/

namespace ScopeMachine.Text

/-- A run of spaces. -/
def spaces (n : Nat) : String := "".pushn ' ' n

/-- The largest width that need not be known beforehand. -/
def largestWidth : Nat := UInt16.size - 1

/-- A run of spaces of a width that is not known beforehand, if it is not too large. -/
def indent? (width : Nat) : Option String := if width ≤ largestWidth then some (spaces width) else none

/-- Pads with spaces on the left. -/
def alignRight (width : Nat) (text : String) : String := spaces (width - text.length) ++ text

/-- Pads with spaces on the right. -/
def alignLeft (width : Nat) (text : String) : String := text ++ spaces (width - text.length)

/-- The hexadecimal digits of a byte, always two of them. -/
def hexByte (b : UInt8) : String :=
  String.ofList [Nat.digitChar (b.toNat / 16), Nat.digitChar (b.toNat % 16)]

end ScopeMachine.Text
