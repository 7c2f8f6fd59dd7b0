import ScopeMachine.Text.Hidden

/-! # Quoted text

Messages are reported in double quotes. Quotes and backslashes are escaped with a backslash, the
usual controls have a letter, and every other hidden character is written as its code point.
-/

namespace ScopeMachine.Text

/-- A code point as an escape with as few hexadecimal digits as it needs. -/
def codePointEscape (c : Char) : String :=
  "\\u\x7b" ++ String.ofList (Nat.toDigits 16 c.toNat) ++ "\x7d"

/-- A character as it stands in quoted text. -/
def quoteChar : Char → String
  | '"' => "\\\""
  | '\\' => "\\\\"
  | '\n' => "\\n"
  | '\r' => "\\r"
  | '\t' => "\\t"
  | '\x00' => "\\0"
  | c => if isHidden c then codePointEscape c else c.toString

/-- A text in quotes. -/
def quoted (text : String) : String := "\"" ++ String.join (text.toList.map quoteChar) ++ "\""

end ScopeMachine.Text
