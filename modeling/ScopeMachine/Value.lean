import ScopeMachine.Error
import ScopeMachine.Text.Decimal

/-! # Values

The machine computes on 32-bit words, read as signed numbers. A value's literal may be written
signed or unsigned: an unsigned literal from 2 ^ 31 on denotes the word with the same bits.
-/

namespace ScopeMachine

/-- A value is a 32-bit word in two's complement. -/
abbrev Value := Int32

/-- The types of values. -/
inductive ValueType where
  | i32
  deriving DecidableEq, Repr, Inhabited

namespace ValueType

def name : ValueType → String
  | i32 => "i32"

/-- Reads a type's name. -/
def ofName : String → Except Malformed ValueType
  | "i32" => .ok i32
  | _ => .error .invalidValueType

/-- The value that a local of the type starts with. -/
def zero : ValueType → Value
  | i32 => 0

/-- The names of a list of types, separated by commas. -/
def list (types : List ValueType) : String := ", ".intercalate (types.map name)

@[simp] theorem ofName_name (type : ValueType) : ofName type.name = .ok type := by
  cases type; rfl

theorem ofName_of_ne {word : String} (other : word ≠ "i32") : ofName word = .error .invalidValueType := by
  unfold ofName
  split
  · exact (other rfl).elim
  · rfl

end ValueType

namespace Value

/-- A comparison leaves one for true and zero for false. -/
def ofBool (b : Bool) : Value := if b then 1 else 0

/-- Reads a literal of the given type: a signed numeral, or the unsigned numeral of the same word.
-/
def parse : ValueType → String → Except Malformed Value
  | .i32, text =>
    match Decimal.int32? text <|> (Decimal.uint32? text).map UInt32.toInt32 with
    | some v => .ok v
    | none => .error .invalidValue

/-- A value with its type, such as 5:i32. -/
def tagged (v : Value) : String := toString v ++ ":i32"

/-- A value applied to its type, such as I32(5). -/
def applied (v : Value) : String := "I32(" ++ toString v ++ ")"

/-- A list of values in brackets, each applied to its type. -/
def appliedList (vs : List Value) : String := "[" ++ ", ".intercalate (vs.map applied) ++ "]"

end Value

end ScopeMachine
