import Mathlib.Data.List.Chain
import ScopeMachine.Json.Token

/-! # How tokens are written

The ways of writing each token, and of laying tokens out in a text, as a grammar. Reading the tokens of a
text finds exactly the tokens that are laid out in it (`Json.tokens?_eq_some_iff`), unless two numbers follow
each other, which they never do in JSON.
-/

namespace ScopeMachine.Json

/-- A hexadecimal digit of either case and its value. -/
def HexDigit (c : Char) (value : Nat) : Prop :=
  "0123456789abcdef".toList[value]? = some c ∨ "0123456789ABCDEF".toList[value]? = some c

/-- The characters that have a short escape, each behind the letter of its escape. -/
def shortEscapes : List (Char × Char) :=
  [('"', '"'), ('\\', '\\'), ('/', '/'), ('b', '\x08'), ('f', '\x0c'), ('n', '\n'), ('r', '\r'), ('t', '\t')]

/-- The ways of writing a piece of a string: a character as it is or as a short escape, and a 16-bit unit by
four hexadecimal digits. -/
inductive Piece.Written : Piece → List Char → Prop
  | plain {c : Char} (printable : 0x20 ≤ c.toNat) (notQuote : c ≠ '"') (notBackslash : c ≠ '\\') :
      Written (.char c) [c]
  | short {letter c : Char} (listed : (letter, c) ∈ shortEscapes) : Written (.char c) ['\\', letter]
  | unit {a b c d : Char} {p q r s : Nat} (first : HexDigit a p) (second : HexDigit b q) (third : HexDigit c r)
      (fourth : HexDigit d s) : Written (.unit (((p * 16 + q) * 16 + r) * 16 + s)) ['\\', 'u', a, b, c, d]

/-- Pieces written one after the other. -/
inductive PiecesWritten : List Piece → List Char → Prop
  | nil : PiecesWritten [] []
  | cons {piece : Piece} {pieces : List Piece} {written rest : List Char} (head : piece.Written written)
      (tail : PiecesWritten pieces rest) : PiecesWritten (piece :: pieces) (written ++ rest)

/-- The text that the pieces of a string denote. Each unit by itself is a character, or two of them are
one; a unit that is neither denotes no text. -/
inductive Denotes : List Piece → List Char → Prop
  | nil : Denotes [] []
  | char {c : Char} {pieces : List Piece} {text : List Char} (rest : Denotes pieces text) :
      Denotes (.char c :: pieces) (c :: text)
  | unit {c : Char} {pieces : List Piece} {text : List Char} (rest : Denotes pieces text) :
      Denotes (.unit c.toNat :: pieces) (c :: text)
  | pair {c : Char} {n m : Nat} {pieces : List Piece} {text : List Char} (leading : 0xd800 ≤ n ∧ n < 0xdc00)
      (trailing : 0xdc00 ≤ m ∧ m < 0xe000)
      (value : c.toNat = 0x10000 + (n - 0xd800) * 0x400 + (m - 0xdc00)) (rest : Denotes pieces text) :
      Denotes (.unit n :: .unit m :: pieces) (c :: text)

/-- One or more digits. -/
def Digits (cs : List Char) : Prop := cs ≠ [] ∧ ∀ c ∈ cs, c.isDigit = true

/-- The integral part of a number, which begins with zero only if it is zero. -/
def Integral (cs : List Char) : Prop := cs = ['0'] ∨ Digits cs ∧ cs.head? ≠ some '0'

/-- The fraction of a number, which may be missing. -/
def Fraction (cs : List Char) : Prop := cs = [] ∨ ∃ digits, Digits digits ∧ cs = '.' :: digits

/-- The exponent of a number, which may be missing and may have a sign. -/
def Exponent (cs : List Char) : Prop :=
  cs = [] ∨ ∃ e ∈ ['e', 'E'], ∃ sign ∈ [[], ['+'], ['-']], ∃ digits, Digits digits ∧ cs = e :: (sign ++ digits)

/-- A number of any size. -/
def Numeral (cs : List Char) : Prop :=
  ∃ minus ∈ [[], ['-']], ∃ integral fraction exponent, Integral integral ∧ Fraction fraction ∧
    Exponent exponent ∧ cs = minus ++ (integral ++ (fraction ++ exponent))

/-- The ways of writing a token. -/
inductive Token.Written : Token → List Char → Prop
  | openBrace : Written .openBrace ['\x7b']
  | closeBrace : Written .closeBrace ['\x7d']
  | openBracket : Written .openBracket ['[']
  | closeBracket : Written .closeBracket [']']
  | comma : Written .comma [',']
  | colon : Written .colon [':']
  | null : Written .null "null".toList
  | bool (b : Bool) : Written (.bool b) (if b then "true" else "false").toList
  | number {cs : List Char} (numeral : Numeral cs) : Written .number cs
  | string {text : Option String} {pieces : List Piece} {body : List Char} (written : PiecesWritten pieces body)
      (denotes : ∀ s : String, text = some s ↔ Denotes pieces s.toList) :
      Written (.string text) ('"' :: (body ++ ['"']))

/-- Only spaces, tabs and line ends. -/
def Blank (cs : List Char) : Prop := ∀ c ∈ cs, c ∈ [' ', '\t', '\n', '\r']

/-- Tokens in a text with nothing but blanks between and around them. -/
inductive Laid : List Token → List Char → Prop
  | blank {cs : List Char} (blank : Blank cs) : Laid [] cs
  | token {t : Token} {ts : List Token} {space written rest : List Char} (blank : Blank space)
      (head : t.Written written) (tail : Laid ts rest) : Laid (t :: ts) (space ++ (written ++ rest))

section strings

/-- Where consecutive characters are listed, each is found by its distance from the first one. -/
theorem getElem?_of_consecutive {table : List Char} {base offset count : Nat}
    (listed : ∀ n < count, table[n + offset]? = some (Char.ofNat (n + base))) {c : Char} (low : base ≤ c.toNat)
    (high : c.toNat < base + count) : table[c.toNat - base + offset]? = some c := by
  rw [listed _ (Nat.sub_lt_left_of_lt_add low high), Nat.sub_add_cancel low, Char.ofNat_toNat]

theorem hexDigit?_sound {c : Char} {value : Nat} (read : hexDigit? c = some value) : HexDigit c value := by
  have digit : ∀ n < 10, "0123456789abcdef".toList[n + 0]? = some (Char.ofNat (n + 48)) := by decide
  have lower : ∀ n < 6, "0123456789abcdef".toList[n + 10]? = some (Char.ofNat (n + 97)) := by decide
  have upper : ∀ n < 6, "0123456789ABCDEF".toList[n + 10]? = some (Char.ofNat (n + 65)) := by decide
  unfold hexDigit? at read
  split at read
  · rename_i range
    have high : c.toNat ≤ 57 := range.2
    exact Option.some.inj read ▸ .inl (getElem?_of_consecutive digit range.1 (Nat.lt_succ_of_le high))
  split at read
  · rename_i range
    have high : c.toNat ≤ 102 := range.2
    exact Option.some.inj read ▸ .inl (getElem?_of_consecutive lower range.1 (Nat.lt_succ_of_le high))
  split at read
  · rename_i range
    have high : c.toNat ≤ 70 := range.2
    exact Option.some.inj read ▸ .inr (getElem?_of_consecutive upper range.1 (Nat.lt_succ_of_le high))
  · cases read

theorem hexDigit?_eq_some_iff {c : Char} {value : Nat} : hexDigit? c = some value ↔ HexDigit c value := by
  have lower : ∀ n < 16, "0123456789abcdef".toList[n]?.bind hexDigit? = some n := by decide
  have upper : ∀ n < 16, "0123456789ABCDEF".toList[n]?.bind hexDigit? = some n := by decide
  constructor
  · exact hexDigit?_sound
  · rintro (found | found)
    · have read := lower value (List.getElem?_eq_some_iff.mp found).1
      rwa [found] at read
    · have read := upper value (List.getElem?_eq_some_iff.mp found).1
      rwa [found] at read

theorem HexDigit.lt {c : Char} {value : Nat} (digit : HexDigit c value) : value < 16 := by
  rcases digit with found | found <;> exact (List.getElem?_eq_some_iff.mp found).1

theorem hexUnit?_eq_some_iff {a b c d : Char} {n : Nat} : hexUnit? a b c d = some n ↔
    Piece.Written (.unit n) ['\\', 'u', a, b, c, d] := by
  simp only [hexUnit?, bind, Option.bind_eq_some_iff, hexDigit?_eq_some_iff, pure, Option.some.injEq]
  constructor
  · rintro ⟨p, first, q, second, r, third, s, fourth, rfl⟩
    have value : (p * 16 + q) * 256 + (r * 16 + s) = ((p * 16 + q) * 16 + r) * 16 + s := by omega
    exact value ▸ .unit first second third fourth
  · intro written
    cases written with
    | @unit _ _ _ _ p q r s first second third fourth =>
      exact ⟨p, first, q, second, r, third, s, fourth, by omega⟩

theorem escaped?_eq_some_iff {letter c : Char} : escaped? letter = some c ↔ (letter, c) ∈ shortEscapes := by
  unfold escaped? shortEscapes
  split <;> simp_all [eq_comm]

/-- What is read of a string is written up to the quote that closes it. -/
theorem scanString_sound {collected pieces : List Piece} {cs rest : List Char}
    (scanned : scanString collected cs = some (pieces, rest)) :
    ∃ more body, PiecesWritten more body ∧ cs = body ++ '"' :: rest ∧ pieces = collected.reverse ++ more := by
  have onward {collected : List Piece} {piece : Piece} {written after : List Char} (head : piece.Written written)
      (tail : ∃ more body, PiecesWritten more body ∧ after = body ++ '"' :: rest ∧
        pieces = (piece :: collected).reverse ++ more) :
      ∃ more body, PiecesWritten more body ∧ written ++ after = body ++ '"' :: rest ∧
        pieces = collected.reverse ++ more := by
    obtain ⟨more, body, tail, rfl, rfl⟩ := tail
    exact ⟨piece :: more, written ++ body, .cons head tail, (List.append_assoc ..).symm, by simp⟩
  fun_induction scanString collected cs with
  | case1 => cases scanned
  | case2 collected rest =>
    cases scanned
    exact ⟨[], [], .nil, rfl, (List.append_nil _).symm⟩
  | case3 collected a b c d after n unit ih => exact onward (hexUnit?_eq_some_iff.mp unit) (ih scanned)
  | case4 => cases scanned
  | case5 collected letter after _ c escaped ih =>
    exact onward (.short (escaped?_eq_some_iff.mp escaped)) (ih scanned)
  | case6 => cases scanned
  | case7 => cases scanned
  | case8 collected c after notQuote notUnit notEscape printable ih =>
    refine onward (.plain (Nat.not_lt.mp printable) notQuote fun backslash => ?_) (ih scanned)
    -- A backslash begins an escape unless the text ends behind it, where no quote follows.
    cases after with
    | nil => cases scanned
    | cons letter after => exact notEscape letter after backslash rfl

/-- A written piece is collected. -/
theorem scanString_piece {piece : Piece} {written : List Char} (head : piece.Written written)
    (collected : List Piece) (after : List Char) :
    scanString collected (written ++ after) = scanString (piece :: collected) after := by
  cases head with
  | plain printable notQuote notBackslash =>
    have unescaped := scanString.eq_5 collected _ after notQuote
      (fun _ _ _ _ _ backslash _ => notBackslash backslash) fun _ _ backslash _ => notBackslash backslash
    rw [if_neg (Nat.not_lt.mpr printable)] at unescaped
    exact unescaped
  | @short letter c listed =>
    have escaped := escaped?_eq_some_iff.mpr listed
    have noUnit : letter ≠ 'u' := by
      rintro rfl
      cases escaped
    have read := scanString.eq_4 collected letter after fun _ _ _ _ _ isU _ => noUnit isU
    rw [escaped] at read
    exact read
  | unit first second third fourth =>
    have unit := hexUnit?_eq_some_iff.mpr (.unit first second third fourth)
    simp only [List.cons_append, List.nil_append, scanString, unit]

/-- What is written up to a quote is read. -/
theorem PiecesWritten.scanString {pieces : List Piece} {body : List Char} (written : PiecesWritten pieces body)
    (collected : List Piece) (rest : List Char) :
    Json.scanString collected (body ++ '"' :: rest) = some (collected.reverse ++ pieces, rest) := by
  induction written generalizing collected with
  | nil => simp [Json.scanString]
  | cons head _ ih =>
    rw [List.append_assoc, scanString_piece head, ih, List.reverse_cons, List.append_assoc]
    rfl

/-- Written units are numbers of 16 bits. -/
theorem PiecesWritten.unit_lt {pieces : List Piece} {body : List Char} (written : PiecesWritten pieces body)
    {n : Nat} (member : .unit n ∈ pieces) : n < 0x10000 := by
  induction written with
  | nil => cases member
  | cons head _ ih =>
    rcases List.mem_cons.mp member with rfl | later
    · cases head with
      | unit first second third fourth =>
        have := first.lt
        have := second.lt
        have := third.lt
        have := fourth.lt
        omega
    · exact ih later

theorem toNat_ofNat {n : Nat} (valid : n.isValidChar) : (Char.ofNat n).toNat = n := by
  unfold Char.ofNat
  rw [dif_pos valid]
  rfl

theorem toNat_joinPair {n m : Nat} (leading : isLeading n = true) (trailing : isTrailing m = true) :
    (joinPair n m).toNat = 0x10000 + (n - 0xd800) * 0x400 + (m - 0xdc00) := by
  simp only [isLeading, isTrailing, Bool.and_eq_true, decide_eq_true_eq] at leading trailing
  exact toNat_ofNat (.inr (by omega))

/-- No character is half of a pair. -/
theorem not_half (c : Char) : isLeading c.toNat = false ∧ isTrailing c.toNat = false := by
  have valid : c.toNat < 0xd800 ∨ 0xdfff < c.toNat ∧ c.toNat < 0x110000 := c.valid
  simp only [isLeading, isTrailing, Bool.and_eq_false_iff, decide_eq_false_iff_not]
  omega

/-- The text of a string is denoted by its pieces. -/
theorem textAfter_sound {collected : List Char} {pieces : List Piece} {text : String}
    (units : ∀ n, .unit n ∈ pieces → n < 0x10000) (read : textAfter collected pieces = some text) :
    ∃ cs, Denotes pieces cs ∧ text = String.ofList (collected.reverse ++ cs) := by
  have onward {collected : List Char} {c : Char} {pieces more : List Piece}
      (denotes : ∀ cs, Denotes more cs → Denotes pieces (c :: cs))
      (tail : ∃ cs, Denotes more cs ∧ text = String.ofList ((c :: collected).reverse ++ cs)) :
      ∃ cs, Denotes pieces cs ∧ text = String.ofList (collected.reverse ++ cs) := by
    obtain ⟨cs, tail, rfl⟩ := tail
    exact ⟨c :: cs, denotes cs tail, by simp⟩
  fun_induction textAfter collected pieces with
  | case1 collected =>
    cases read
    exact ⟨[], .nil, by simp⟩
  | case2 collected c rest ih => exact onward (fun _ => .char) (ih (fun n member => units n (.tail _ member)) read)
  | case3 => cases read
  | case4 collected n _ leading m rest trailing ih =>
    have value := toNat_joinPair leading trailing
    simp only [isLeading, isTrailing, Bool.and_eq_true, decide_eq_true_eq] at leading trailing
    exact onward (fun _ => .pair leading trailing value)
      (ih (fun n member => units n (.tail _ (.tail _ member))) read)
  | case5 => cases read
  | case6 => cases read
  | case7 collected n rest notTrailing notLeading ih =>
    have bound := units n List.mem_cons_self
    simp only [isLeading, isTrailing, Bool.and_eq_true, decide_eq_true_eq] at notLeading notTrailing
    have value : (Char.ofNat n).toNat = n := toNat_ofNat (by omega)
    have unit {cs : List Char} (tail : Denotes rest cs) : Denotes (.unit n :: rest) (Char.ofNat n :: cs) := by
      rw [← value, Char.ofNat_toNat]
      exact .unit tail
    exact onward (fun _ => unit) (ih (fun n member => units n (.tail _ member)) read)

/-- What the pieces of a string denote is its text. -/
theorem Denotes.textAfter {pieces : List Piece} {cs : List Char} (denotes : Denotes pieces cs)
    (collected : List Char) : Json.textAfter collected pieces = some (String.ofList (collected.reverse ++ cs)) := by
  have collect {collected : List Char} (c : Char) (cs : List Char) :
      (c :: collected).reverse ++ cs = collected.reverse ++ c :: cs := by simp
  induction denotes generalizing collected with
  | nil => rw [Json.textAfter, List.append_nil]
  | char _ ih => rw [Json.textAfter, ih, collect]
  | @unit c _ _ _ ih =>
    obtain ⟨notLeading, notTrailing⟩ := not_half c
    unfold Json.textAfter
    simp only [notTrailing, notLeading, Bool.false_eq_true, ↓reduceIte, Char.ofNat_toNat]
    rw [ih, collect]
  | @pair c n m _ _ leading trailing value _ ih =>
    have isLeading : isLeading n = true := by simp [isLeading, leading]
    have isTrailing : isTrailing m = true := by simp [isTrailing, trailing]
    have notTrailing : Json.isTrailing n = false := by simp [Json.isTrailing]; omega
    have same : joinPair n m = c := by rw [joinPair, ← value, Char.ofNat_toNat]
    unfold Json.textAfter
    simp only [notTrailing, isLeading, isTrailing, Bool.false_eq_true, ↓reduceIte, same]
    rw [ih, collect]

end strings

section numbers

/-- The characters that may go on with a number. -/
def Continues (c : Char) : Prop := c.isDigit = true ∨ c = '.' ∨ c = 'e' ∨ c = 'E'

instance (c : Char) : Decidable (Continues c) := inferInstanceAs (Decidable (_ ∨ _))

/-- No number that is written before the text goes on in it. -/
def EndsNumber (cs : List Char) : Prop := ∀ c ∈ cs.head?, ¬ Continues c

variable {cs part rest : List Char}

theorem scanDigits_sound (scanned : scanDigits cs = some rest) : ∃ digits, Digits digits ∧ cs = digits ++ rest := by
  cases cs with
  | nil => cases scanned
  | cons c cs =>
    simp only [scanDigits, Option.ite_none_right_eq_some, Option.some.injEq] at scanned
    obtain ⟨digit, rfl⟩ := scanned
    refine ⟨c :: cs.takeWhile Char.isDigit, ⟨List.cons_ne_nil _ _, ?_⟩, ?_⟩
    · exact List.forall_mem_cons.mpr ⟨digit, List.all_eq_true.mp List.all_takeWhile⟩
    · rw [List.cons_append, List.takeWhile_append_dropWhile]

theorem scanDigits_append (digits : Digits part) (stops : ∀ c ∈ rest.head?, c.isDigit = false) :
    scanDigits (part ++ rest) = some rest := by
  obtain ⟨nonempty, all⟩ := digits
  cases part with
  | nil => exact (nonempty rfl).elim
  | cons c part =>
    obtain ⟨digit, all⟩ := List.forall_mem_cons.mp all
    have dropped : (part ++ rest).dropWhile Char.isDigit = rest := by
      rw [List.dropWhile_append_of_pos all]
      cases rest with
      | nil => rfl
      | cons d rest => simp [stops d rfl]
    rw [List.cons_append, scanDigits, if_pos digit, dropped]

theorem scanIntegral_sound (scanned : scanIntegral cs = some rest) :
    ∃ part, Integral part ∧ cs = part ++ rest := by
  unfold scanIntegral at scanned
  split at scanned
  · cases scanned
    exact ⟨['0'], .inl rfl, rfl⟩
  · rename_i notZero
    obtain ⟨digits, isDigits, rfl⟩ := scanDigits_sound scanned
    refine ⟨digits, .inr ⟨isDigits, fun zero => ?_⟩, rfl⟩
    obtain ⟨more, rfl⟩ := List.head?_eq_some_iff.mp zero
    exact notZero _ rfl

theorem scanIntegral_append (integral : Integral part) (stops : ∀ c ∈ rest.head?, c.isDigit = false) :
    scanIntegral (part ++ rest) = some rest := by
  rcases integral with rfl | ⟨digits, notZero⟩
  · rfl
  · have scanned := scanDigits_append digits stops
    unfold scanIntegral
    split
    · rename_i zero
      cases part with
      | nil => exact (digits.1 rfl).elim
      | cons c part =>
        obtain ⟨rfl, -⟩ := List.cons.inj zero
        exact (notZero rfl).elim
    · exact scanned

theorem scanFraction_sound (scanned : scanFraction cs = some rest) :
    ∃ part, Fraction part ∧ cs = part ++ rest := by
  unfold scanFraction at scanned
  split at scanned
  · obtain ⟨digits, isDigits, rfl⟩ := scanDigits_sound scanned
    exact ⟨'.' :: digits, .inr ⟨digits, isDigits, rfl⟩, rfl⟩
  · cases scanned
    exact ⟨[], .inl rfl, rfl⟩

theorem scanFraction_append (fraction : Fraction part) (stops : ∀ c ∈ rest.head?, c.isDigit = false ∧ c ≠ '.') :
    scanFraction (part ++ rest) = some rest := by
  rcases fraction with rfl | ⟨digits, isDigits, rfl⟩
  · rw [List.nil_append]
    unfold scanFraction
    split
    · exact ((stops '.' rfl).2 rfl).elim
    · rfl
  · exact scanDigits_append isDigits fun c first => (stops c first).1

theorem Digits.exists_head (digits : Digits part) : ∃ c more, part = c :: more ∧ c.isDigit = true := by
  obtain ⟨nonempty, all⟩ := digits
  obtain ⟨c, more, rfl⟩ := List.exists_cons_of_ne_nil nonempty
  exact ⟨c, more, rfl, all c List.mem_cons_self⟩

theorem Integral.exists_head (integral : Integral part) : ∃ c more, part = c :: more ∧ c.isDigit = true := by
  rcases integral with rfl | ⟨digits, -⟩
  · exact ⟨'0', [], rfl, rfl⟩
  · exact digits.exists_head

theorem skipSign_append {sign : List Char} (isSign : sign ∈ [[], ['+'], ['-']]) (digits : Digits part) :
    skipSign (sign ++ (part ++ rest)) = part ++ rest := by
  simp only [List.mem_cons, List.not_mem_nil, or_false] at isSign
  rcases isSign with rfl | rfl | rfl
  · obtain ⟨c, more, rfl, digit⟩ := digits.exists_head
    rw [List.nil_append, List.cons_append]
    unfold skipSign
    split
    · cases (List.cons.inj ‹_›).1
      cases digit
    · cases (List.cons.inj ‹_›).1
      cases digit
    · rfl
  · rfl
  · rfl

theorem skipMinus_append {minus : List Char} (isMinus : minus ∈ [[], ['-']]) (integral : Integral part) :
    skipMinus (minus ++ (part ++ rest)) = part ++ rest := by
  simp only [List.mem_cons, List.not_mem_nil, or_false] at isMinus
  rcases isMinus with rfl | rfl
  · obtain ⟨c, more, rfl, digit⟩ := integral.exists_head
    rw [List.nil_append, List.cons_append]
    unfold skipMinus
    split
    · cases (List.cons.inj ‹_›).1
      cases digit
    · rfl
  · rfl

theorem scanExponent_sound (scanned : scanExponent cs = some rest) :
    ∃ part, Exponent part ∧ cs = part ++ rest := by
  have signed (after : List Char) : ∃ sign ∈ [[], ['+'], ['-']], after = sign ++ skipSign after := by
    unfold skipSign
    split
    · exact ⟨['+'], by decide, rfl⟩
    · exact ⟨['-'], by decide, rfl⟩
    · exact ⟨[], by decide, rfl⟩
  have marked {e : Char} {after : List Char} (isMark : e ∈ ['e', 'E'])
      (scanned : scanDigits (skipSign after) = some rest) : ∃ part, Exponent part ∧ e :: after = part ++ rest := by
    obtain ⟨sign, isSign, split⟩ := signed after
    obtain ⟨digits, isDigits, found⟩ := scanDigits_sound scanned
    rw [split, found]
    exact ⟨e :: (sign ++ digits), .inr ⟨e, isMark, sign, isSign, digits, isDigits, rfl⟩, by simp⟩
  unfold scanExponent at scanned
  split at scanned
  · exact marked (by decide) scanned
  · exact marked (by decide) scanned
  · cases scanned
    exact ⟨[], .inl rfl, rfl⟩

theorem scanExponent_append (exponent : Exponent part) (stops : EndsNumber rest) :
    scanExponent (part ++ rest) = some rest := by
  rcases exponent with rfl | ⟨e, isMark, sign, isSign, digits, isDigits, rfl⟩
  · rw [List.nil_append]
    unfold scanExponent
    split
    · exact (stops 'e' rfl (.inr (.inr (.inl rfl)))).elim
    · exact (stops 'E' rfl (.inr (.inr (.inr rfl)))).elim
    · rfl
  · have scanned : scanDigits (skipSign (sign ++ (digits ++ rest))) = some rest := by
      rw [skipSign_append isSign isDigits]
      exact scanDigits_append isDigits fun c first => Bool.eq_false_iff.mpr fun digit => stops c first (.inl digit)
    rw [List.cons_append, List.append_assoc]
    simp only [List.mem_cons, List.not_mem_nil, or_false] at isMark
    rcases isMark with rfl | rfl
    · exact scanned
    · exact scanned

/-- What is passed over as a number is one. -/
theorem scanNumber_sound (scanned : scanNumber cs = some rest) : ∃ part, Numeral part ∧ cs = part ++ rest := by
  have signed : ∃ minus ∈ [[], ['-']], cs = minus ++ skipMinus cs := by
    unfold skipMinus
    split
    · exact ⟨['-'], by decide, rfl⟩
    · exact ⟨[], by decide, rfl⟩
  obtain ⟨minus, isMinus, split⟩ := signed
  simp only [scanNumber, bind, Option.bind_eq_some_iff] at scanned
  obtain ⟨afterIntegral, scanned, afterFraction, scanned', scanned''⟩ := scanned
  obtain ⟨integral, isIntegral, found⟩ := scanIntegral_sound scanned
  obtain ⟨fraction, isFraction, rfl⟩ := scanFraction_sound scanned'
  obtain ⟨exponent, isExponent, rfl⟩ := scanExponent_sound scanned''
  refine ⟨minus ++ (integral ++ (fraction ++ exponent)), ?_, ?_⟩
  · exact ⟨minus, isMinus, integral, fraction, exponent, isIntegral, isFraction, isExponent, rfl⟩
  · rw [split, found]
    simp

/-- A number is passed over up to where it ends. -/
theorem scanNumber_append (numeral : Numeral part) (stops : EndsNumber rest) :
    scanNumber (part ++ rest) = some rest := by
  obtain ⟨minus, isMinus, integral, fraction, exponent, isIntegral, isFraction, isExponent, rfl⟩ := numeral
  have noDigit {c : Char} (ends : ¬ Continues c) : c.isDigit = false :=
    Bool.eq_false_iff.mpr fun digit => ends (.inl digit)
  have afterFraction : ∀ c ∈ (exponent ++ rest).head?, c.isDigit = false ∧ c ≠ '.' := by
    intro c first
    rcases isExponent with rfl | ⟨e, isMark, sign, -, digits, -, rfl⟩
    · exact ⟨noDigit (stops c first), fun point => stops c first (.inr (.inl point))⟩
    · cases first
      simp only [List.mem_cons, List.not_mem_nil, or_false] at isMark
      rcases isMark with rfl | rfl <;> decide
  have afterIntegral : ∀ c ∈ (fraction ++ (exponent ++ rest)).head?, c.isDigit = false := by
    intro c first
    rcases isFraction with rfl | ⟨digits, -, rfl⟩
    · exact (afterFraction c first).1
    · cases first
      rfl
  simp only [List.append_assoc, scanNumber, bind, Option.bind]
  rw [skipMinus_append isMinus isIntegral, scanIntegral_append isIntegral afterIntegral]
  simp only
  rw [scanFraction_append isFraction afterFraction]
  exact scanExponent_append isExponent stops

end numbers

section tokens

variable {cs space written rest : List Char} {t : Token}

/-- The text of a written string is the text that its pieces denote. -/
theorem textAfter_nil_eq_some_iff {pieces : List Piece} {body : List Char} (written : PiecesWritten pieces body)
    (text : String) : textAfter [] pieces = some text ↔ Denotes pieces text.toList := by
  constructor
  · intro read
    obtain ⟨cs, denotes, rfl⟩ := textAfter_sound (fun n => written.unit_lt) read
    rwa [List.reverse_nil, List.nil_append, String.toList_ofList]
  · intro denotes
    rw [denotes.textAfter, List.reverse_nil, List.nil_append, String.ofList_toList]

/-- The token that is read is written at the start of the text. -/
theorem nextToken?_sound (scanned : nextToken? cs = some (t, rest)) :
    ∃ written, t.Written written ∧ cs = written ++ rest := by
  unfold nextToken? at scanned
  split at scanned
  case h_10 rest _ =>
    obtain ⟨⟨pieces, after⟩, found, same⟩ := Option.map_eq_some_iff.mp scanned
    obtain ⟨more, body, written, rfl, rfl⟩ := scanString_sound found
    cases same
    exact ⟨_, .string written (textAfter_nil_eq_some_iff written), by simp⟩
  case h_11 =>
    obtain ⟨after, found, same⟩ := Option.map_eq_some_iff.mp scanned
    obtain ⟨numeral, isNumeral, rfl⟩ := scanNumber_sound found
    cases same
    exact ⟨numeral, .number isNumeral, rfl⟩
  case h_1 => cases scanned; exact ⟨_, .openBrace, rfl⟩
  case h_2 => cases scanned; exact ⟨_, .closeBrace, rfl⟩
  case h_3 => cases scanned; exact ⟨_, .openBracket, rfl⟩
  case h_4 => cases scanned; exact ⟨_, .closeBracket, rfl⟩
  case h_5 => cases scanned; exact ⟨_, .comma, rfl⟩
  case h_6 => cases scanned; exact ⟨_, .colon, rfl⟩
  case h_7 => cases scanned; exact ⟨_, .null, rfl⟩
  case h_8 => cases scanned; exact ⟨_, .bool true, rfl⟩
  case h_9 => cases scanned; exact ⟨_, .bool false, rfl⟩

theorem Numeral.exists_head (numeral : Numeral cs) :
    ∃ c more, cs = c :: more ∧ (c = '-' ∨ c.isDigit = true) := by
  obtain ⟨minus, isMinus, integral, fraction, exponent, isIntegral, -, -, rfl⟩ := numeral
  simp only [List.mem_cons, List.not_mem_nil, or_false] at isMinus
  rcases isMinus with rfl | rfl
  · obtain ⟨c, more, rfl, digit⟩ := isIntegral.exists_head
    exact ⟨c, _, rfl, .inr digit⟩
  · exact ⟨'-', _, rfl, .inl rfl⟩

/-- Where a number begins, no other token does. -/
theorem nextToken?_of_numeral {c : Char} (begins : c = '-' ∨ c.isDigit = true) (more : List Char) :
    nextToken? (c :: more) = (scanNumber (c :: more)).map fun rest => (.number, rest) := by
  unfold nextToken?
  split
  case h_11 => rfl
  all_goals
    rename_i same
    obtain ⟨rfl, -⟩ := List.cons.inj same
    rcases begins with minus | digit
    · cases minus
    · cases digit

/-- A written token is read, where a number must not go on behind it. -/
theorem nextToken?_append (head : t.Written written) (stops : t = .number → EndsNumber rest) :
    nextToken? (written ++ rest) = some (t, rest) := by
  cases head with
  | number numeral =>
    have scanned := scanNumber_append numeral (stops rfl)
    obtain ⟨c, more, rfl, begins⟩ := numeral.exists_head
    rw [List.cons_append] at scanned ⊢
    rw [nextToken?_of_numeral begins, scanned]
    rfl
  | @string text pieces body written denotes =>
    have scanned : scanString [] (body ++ '"' :: rest) = some (pieces, rest) := written.scanString [] rest
    have same : textAfter [] pieces = text :=
      Option.ext fun s => (textAfter_nil_eq_some_iff written s).trans (denotes s).symm
    rw [List.cons_append, List.append_assoc, List.singleton_append, nextToken?, scanned, ← same]
    rfl
  | bool b => cases b <;> rfl
  | _ => rfl

/-- Every token begins with something that is not blank, and only a number with something that goes on with a
number. -/
theorem Token.Written.exists_head (head : t.Written written) :
    ∃ c more, written = c :: more ∧ isSpace c = false ∧ (t ≠ .number → ¬ Continues c) := by
  cases head with
  | number numeral =>
    obtain ⟨c, more, rfl, begins⟩ := numeral.exists_head
    refine ⟨c, more, rfl, ?_, fun other => (other rfl).elim⟩
    rw [Bool.eq_false_iff]
    intro space
    simp only [isSpace, Bool.or_eq_true, beq_iff_eq] at space
    rcases space with ((rfl | rfl) | rfl) | rfl <;> rcases begins with begins | begins <;> cases begins
  | null => exact ⟨'n', _, rfl, rfl, fun _ => by decide⟩
  | bool b =>
    cases b with
    | true => exact ⟨'t', _, rfl, rfl, fun _ => by decide⟩
    | false => exact ⟨'f', _, rfl, rfl, fun _ => by decide⟩
  | _ => exact ⟨_, _, rfl, rfl, fun _ => by decide⟩

theorem isSpace_iff {c : Char} : isSpace c = true ↔ c ∈ [' ', '\t', '\n', '\r'] := by
  simp [isSpace, or_assoc]

theorem tokensAfter_space {collected : List Token} (blank : Blank space) :
    tokensAfter collected (space ++ cs) = tokensAfter collected cs := by
  induction space with
  | nil => rfl
  | cons c space ih =>
    obtain ⟨isBlank, blank⟩ := List.forall_mem_cons.mp blank
    rw [List.cons_append, tokensAfter, if_pos (isSpace_iff.mpr isBlank), ih blank]

theorem tokensAfter_token {collected : List Token} (head : t.Written written)
    (stops : t = .number → EndsNumber rest) :
    tokensAfter collected (written ++ rest) = tokensAfter (t :: collected) rest := by
  have found := nextToken?_append head stops
  obtain ⟨c, more, rfl, notSpace, -⟩ := head.exists_head
  rw [List.cons_append] at found ⊢
  rw [tokensAfter, if_neg (Bool.eq_false_iff.mp notSpace)]
  split
  · rename_i t' rest' scanned
    rw [found] at scanned
    cases scanned
    rfl
  · rename_i none
    rw [found] at none
    cases none

theorem Laid.prepend {ts : List Token} (blank : Blank space) (laid : Laid ts cs) : Laid ts (space ++ cs) := by
  cases laid with
  | blank more => exact .blank (List.forall_mem_append.mpr ⟨blank, more⟩)
  | token more head tail =>
    rw [← List.append_assoc]
    exact .token (List.forall_mem_append.mpr ⟨blank, more⟩) head tail

/-- A number ends in front of anything but another number. -/
theorem Laid.endsNumber {ts : List Token} (laid : Laid ts cs) (other : ∀ t ∈ ts.head?, t ≠ .number) :
    EndsNumber cs := by
  have blankEnds (c : Char) (blank : c ∈ [' ', '\t', '\n', '\r']) : ¬ Continues c := by
    simp only [List.mem_cons, List.not_mem_nil, or_false] at blank
    rcases blank with rfl | rfl | rfl | rfl <;> decide
  intro c first
  cases laid with
  | blank blank => exact blankEnds c (blank c (List.mem_of_head? first))
  | @token t _ space _ _ blank head _ =>
    cases space with
    | cons d space =>
      cases first
      exact blankEnds c (blank c List.mem_cons_self)
    | nil =>
      obtain ⟨d, more, rfl, -, ends⟩ := head.exists_head
      cases first
      exact ends (other t rfl)

/-- No two numbers follow each other. -/
def Apart (ts : List Token) : Prop := ts.IsChain fun t next => t = .number → next ≠ .number

/-- Exactly the tokens that are laid out in a text are read from it. -/
theorem tokensAfter_sound {collected ts : List Token} (read : tokensAfter collected cs = some ts) :
    ∃ more, Laid more cs ∧ ts = collected.reverse ++ more := by
  fun_induction tokensAfter collected cs with
  | case1 collected =>
    cases read
    exact ⟨[], .blank nofun, (List.append_nil _).symm⟩
  | case2 collected c rest space ih =>
    obtain ⟨more, laid, same⟩ := ih read
    have blank : Blank [c] := by
      intro d member
      rw [List.mem_singleton.mp member]
      exact isSpace_iff.mp space
    exact ⟨more, laid.prepend blank, same⟩
  | case3 collected c rest _ t after scanned _ ih =>
    obtain ⟨more, laid, rfl⟩ := ih read
    obtain ⟨written, head, split⟩ := nextToken?_sound scanned
    have noSpace : Blank [] := nofun
    exact ⟨t :: more, split ▸ .token noSpace head laid, by simp⟩
  | case4 => cases read

theorem Laid.tokensAfter {collected ts : List Token} (laid : Laid ts cs) (apart : Apart ts) :
    tokensAfter collected cs = some (collected.reverse ++ ts) := by
  induction laid generalizing collected with
  | @blank cs blank =>
    have read : Json.tokensAfter collected (cs ++ []) = Json.tokensAfter collected [] := tokensAfter_space blank
    rw [List.append_nil] at read
    rw [read, Json.tokensAfter, List.append_nil]
  | @token t ts space written rest blank head tail ih =>
    have stops : t = .number → EndsNumber rest := by
      rintro rfl
      apply tail.endsNumber
      intro next first
      exact (List.isChain_cons.mp apart).1 next first rfl
    rw [tokensAfter_space blank, tokensAfter_token head stops, ih (List.isChain_cons.mp apart).2]
    simp

/-- The tokens of a text are those that are laid out in it, as long as no two numbers follow each other. -/
theorem tokens?_eq_some_iff {text : String} {ts : List Token} (apart : Apart ts) :
    tokens? text = some ts ↔ Laid ts text.toList := by
  constructor
  · intro read
    obtain ⟨more, laid, rfl⟩ := tokensAfter_sound read
    exact laid
  · intro laid
    exact laid.tokensAfter apart

end tokens

end ScopeMachine.Json
