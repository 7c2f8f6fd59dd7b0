/-! # JSON tokens

The words of JSON text: punctuation, the three names, numbers and strings. Numbers are only
recognised, since no document holds one. A string is read in pieces, because an escape names a
16-bit unit and two of them may make one character. A unit that is half of such a pair and stands
alone is well formed but denotes no text.
-/

namespace ScopeMachine.Json

/-- A token of JSON text. -/
inductive Token where
  | openBrace
  | closeBrace
  | openBracket
  | closeBracket
  | comma
  | colon
  | null
  | bool (b : Bool)
  | number
  /-- A string and the text that it denotes, if it denotes one. -/
  | string (text : Option String)
  deriving DecidableEq, Repr, Inhabited

/-- A piece of a written string: a character, or the 16-bit unit that an escape names. -/
inductive Piece where
  | char (c : Char)
  | unit (n : Nat)
  deriving DecidableEq, Repr, Inhabited

/-- The four characters that may stand between tokens. -/
def isSpace (c : Char) : Bool := c == ' ' || c == '\t' || c == '\n' || c == '\r'

/-- The value of a hexadecimal digit of either case. -/
def hexDigit? (c : Char) : Option Nat :=
  if '0' ≤ c ∧ c ≤ '9' then some (c.toNat - '0'.toNat)
  else if 'a' ≤ c ∧ c ≤ 'f' then some (c.toNat - 'a'.toNat + 10)
  else if 'A' ≤ c ∧ c ≤ 'F' then some (c.toNat - 'A'.toNat + 10)
  else none

/-- The unit that four hexadecimal digits name. -/
def hexUnit? (a b c d : Char) : Option Nat := do
  let high := (← hexDigit? a) * 16 + (← hexDigit? b)
  let low := (← hexDigit? c) * 16 + (← hexDigit? d)
  return high * 256 + low

/-- The character that a backslash and the given letter stand for. -/
def escaped? : Char → Option Char
  | '"' => some '"'
  | '\\' => some '\\'
  | '/' => some '/'
  | 'b' => some '\x08'
  | 'f' => some '\x0c'
  | 'n' => some '\n'
  | 'r' => some '\r'
  | 't' => some '\t'
  | _ => none

/-- The first unit of a pair. -/
def isLeading (n : Nat) : Bool := 0xd800 ≤ n && n < 0xdc00

/-- The second unit of a pair. -/
def isTrailing (n : Nat) : Bool := 0xdc00 ≤ n && n < 0xe000

/-- The character that a pair of units stands for. -/
def joinPair (leading trailing : Nat) : Char :=
  Char.ofNat (0x10000 + (leading - 0xd800) * 0x400 + (trailing - 0xdc00))

/-- The text of a string's pieces, after the characters collected so far, the last one first. Units
outside of pairs stand for themselves, and half a pair denotes nothing. -/
def textAfter (collected : List Char) : List Piece → Option String
  | [] => some (String.ofList collected.reverse)
  | .char c :: rest => textAfter (c :: collected) rest
  | .unit n :: rest =>
    if isTrailing n then none
    else if isLeading n then
      match rest with
      | .unit m :: rest =>
        if isTrailing m then textAfter (joinPair n m :: collected) rest else none
      | _ => none
    else textAfter (Char.ofNat n :: collected) rest

/-- Reads a string from behind its opening quote: its pieces after those collected so far, and what
follows the closing quote. Control characters have to be escaped. -/
def scanString (collected : List Piece) : List Char → Option (List Piece × List Char)
  | [] => none
  | '"' :: rest => some (collected.reverse, rest)
  | '\\' :: 'u' :: a :: b :: c :: d :: rest =>
    match hexUnit? a b c d with
    | some n => scanString (.unit n :: collected) rest
    | none => none
  | '\\' :: letter :: rest =>
    match escaped? letter with
    | some c => scanString (.char c :: collected) rest
    | none => none
  | c :: rest => if c.toNat < 0x20 then none else scanString (.char c :: collected) rest

/-- Passes over one or more digits. -/
def scanDigits : List Char → Option (List Char)
  | c :: rest => if c.isDigit then some (rest.dropWhile Char.isDigit) else none
  | [] => none

/-- Passes over the integral part of a number, which has no needless zeros in front. -/
def scanIntegral : List Char → Option (List Char)
  | '0' :: rest => some rest
  | cs => scanDigits cs

/-- Passes over the fraction of a number, if there is one. -/
def scanFraction : List Char → Option (List Char)
  | '.' :: rest => scanDigits rest
  | cs => some cs

/-- Passes over a sign, if there is one. -/
def skipSign : List Char → List Char
  | '+' :: rest => rest
  | '-' :: rest => rest
  | cs => cs

/-- Passes over the exponent of a number, if there is one. -/
def scanExponent : List Char → Option (List Char)
  | 'e' :: rest => scanDigits (skipSign rest)
  | 'E' :: rest => scanDigits (skipSign rest)
  | cs => some cs

/-- Passes over a minus, if there is one. -/
def skipMinus : List Char → List Char
  | '-' :: rest => rest
  | cs => cs

/-- Passes over a number. -/
def scanNumber (cs : List Char) : Option (List Char) := do
  scanExponent (← scanFraction (← scanIntegral (skipMinus cs)))

/-- The token at the start of a text and what follows it. -/
def nextToken? : List Char → Option (Token × List Char)
  | '\x7b' :: rest => some (.openBrace, rest)
  | '\x7d' :: rest => some (.closeBrace, rest)
  | '[' :: rest => some (.openBracket, rest)
  | ']' :: rest => some (.closeBracket, rest)
  | ',' :: rest => some (.comma, rest)
  | ':' :: rest => some (.colon, rest)
  | 'n' :: 'u' :: 'l' :: 'l' :: rest => some (.null, rest)
  | 't' :: 'r' :: 'u' :: 'e' :: rest => some (.bool true, rest)
  | 'f' :: 'a' :: 'l' :: 's' :: 'e' :: rest => some (.bool false, rest)
  | '"' :: rest =>
    (scanString [] rest).map fun (pieces, rest) => (.string (textAfter [] pieces), rest)
  | cs => (scanNumber cs).map fun rest => (.number, rest)

theorem length_scanString {collected pieces : List Piece} {cs rest : List Char}
    (scanned : scanString collected cs = some (pieces, rest)) : rest.length < cs.length := by
  fun_induction scanString collected cs with
  | case1 => simp at scanned
  | case2 collected rest =>
    simp only [Option.some.injEq, Prod.mk.injEq] at scanned
    simp [scanned.2]
  | case3 collected a b c d rest n unit ih =>
    have := ih scanned
    simp only [List.length_cons]
    omega
  | case4 => simp at scanned
  | case5 collected letter rest _ c escaped ih =>
    have := ih scanned
    simp only [List.length_cons]
    omega
  | case6 => simp at scanned
  | case7 => simp at scanned
  | case8 collected c rest _ _ _ _ ih =>
    have := ih scanned
    simp only [List.length_cons]
    omega

theorem length_scanDigits {cs rest : List Char} (scanned : scanDigits cs = some rest) :
    rest.length < cs.length := by
  cases cs with
  | nil => simp [scanDigits] at scanned
  | cons c cs =>
    simp only [scanDigits, Option.ite_none_right_eq_some, Option.some.injEq] at scanned
    have bound := (List.dropWhile_sublist (l := cs) Char.isDigit).length_le
    rw [scanned.2] at bound
    exact Nat.lt_succ_of_le bound

theorem length_scanIntegral {cs rest : List Char} (scanned : scanIntegral cs = some rest) :
    rest.length < cs.length := by
  unfold scanIntegral at scanned
  split at scanned
  · simp only [Option.some.injEq] at scanned
    simp [scanned]
  · exact length_scanDigits scanned

theorem length_scanFraction {cs rest : List Char} (scanned : scanFraction cs = some rest) :
    rest.length ≤ cs.length := by
  unfold scanFraction at scanned
  split at scanned
  · have := length_scanDigits scanned
    simp only [List.length_cons]
    omega
  · simp only [Option.some.injEq] at scanned
    simp [scanned]

theorem length_skipSign (cs : List Char) : (skipSign cs).length ≤ cs.length := by
  unfold skipSign
  split <;> simp

theorem length_skipMinus (cs : List Char) : (skipMinus cs).length ≤ cs.length := by
  unfold skipMinus
  split <;> simp

theorem length_scanExponent {cs rest : List Char} (scanned : scanExponent cs = some rest) :
    rest.length ≤ cs.length := by
  unfold scanExponent at scanned
  split at scanned
  · next after =>
    have := length_scanDigits scanned
    have := length_skipSign after
    simp only [List.length_cons]
    omega
  · next after =>
    have := length_scanDigits scanned
    have := length_skipSign after
    simp only [List.length_cons]
    omega
  · simp only [Option.some.injEq] at scanned
    simp [scanned]

theorem length_scanNumber {cs rest : List Char} (scanned : scanNumber cs = some rest) :
    rest.length < cs.length := by
  simp only [scanNumber, bind, Option.bind_eq_some_iff] at scanned
  obtain ⟨afterIntegral, integral, afterFraction, fraction, exponent⟩ := scanned
  have := length_skipMinus cs
  have := length_scanIntegral integral
  have := length_scanFraction fraction
  have := length_scanExponent exponent
  omega

/-- Every token takes up some of the text. -/
theorem length_nextToken? {cs rest : List Char} {t : Token}
    (scanned : nextToken? cs = some (t, rest)) : rest.length < cs.length := by
  unfold nextToken? at scanned
  split at scanned
  case h_10 =>
    obtain ⟨⟨pieces, after⟩, found, same⟩ := Option.map_eq_some_iff.mp scanned
    have := length_scanString found
    simp only [Prod.mk.injEq] at same
    simp only [List.length_cons, ← same.2]
    omega
  case h_11 =>
    obtain ⟨after, found, same⟩ := Option.map_eq_some_iff.mp scanned
    simp only [Prod.mk.injEq] at same
    exact same.2 ▸ length_scanNumber found
  all_goals
    simp only [Option.some.injEq, Prod.mk.injEq] at scanned
    simp only [List.length_cons, ← scanned.2]
    omega

/-- The tokens of a text after those collected so far, the last one first. -/
def tokensAfter (collected : List Token) (cs : List Char) : Option (List Token) :=
  match cs with
  | [] => some collected.reverse
  | c :: rest =>
    if isSpace c then tokensAfter collected rest
    else
      match scanned : nextToken? (c :: rest) with
      | some (t, rest) =>
        have := length_nextToken? scanned
        tokensAfter (t :: collected) rest
      | none => none
  termination_by cs.length
  decreasing_by
    · simp
    · assumption

/-- The tokens of a text. -/
def tokens? (text : String) : Option (List Token) := tokensAfter [] text.toList

end ScopeMachine.Json
