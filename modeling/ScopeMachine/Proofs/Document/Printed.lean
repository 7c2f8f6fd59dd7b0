import ScopeMachine.Proofs.Document.Spelling

/-! # Every document can be written

The tokens of a value make up a text of it if each of them is written in one way, for which no blanks are needed. A
string is written as it is, apart from the characters that have to be escaped. So there is a text for every document
(`Document.parse_print`).
-/

namespace ScopeMachine

namespace Json

/-- The hexadecimal digit of a number below 16. -/
def hexDigit (n : Nat) : Char := "0123456789abcdef".toList.getD n '0'

/-- How a character of a string is written. -/
def escape (c : Char) : List Char :=
  if c = '"' ∨ c = '\\' then ['\\', c]
  else if c.toNat < 0x20 then ['\\', 'u', '0', '0', hexDigit (c.toNat / 16), hexDigit (c.toNat % 16)]
  else [c]

/-- How a token is written. -/
def Token.print : Token → List Char
  | .openBrace => ['\x7b']
  | .closeBrace => ['\x7d']
  | .openBracket => ['[']
  | .closeBracket => [']']
  | .comma => [',']
  | .colon => [':']
  | .null => "null".toList
  | .bool b => (if b then "true" else "false").toList
  | .number => ['0']
  | .string (some s) => '"' :: (s.toList.flatMap escape ++ ['"'])
  | .string none => '"' :: ("\\ud800".toList ++ ['"'])

/-- The text of a value. -/
def print (v : Json) : String := String.ofList (v.tokens.flatMap Token.print)

/-- The piece that a character is written as. -/
def Piece.of (c : Char) : Piece := if c.toNat < 0x20 then .unit c.toNat else .char c

theorem hexDigit_hexDigit {n : Nat} (small : n < 16) : HexDigit (hexDigit n) n := by
  refine .inl ?_
  rw [hexDigit, List.getD_eq_getElem?_getD, List.getElem?_eq_getElem (by exact small)]
  rfl

theorem Piece.written_escape (c : Char) : (Piece.of c).Written (escape c) := by
  by_cases listed : c = '"' ∨ c = '\\'
  · have plain : Piece.of c = .char c := by rcases listed with rfl | rfl <;> rfl
    rw [plain, escape, if_pos listed]
    exact .short (by rcases listed with rfl | rfl <;> simp [shortEscapes])
  · rw [escape, if_neg listed]
    by_cases control : c.toNat < 0x20
    · have digits : c.toNat = ((0 * 16 + 0) * 16 + c.toNat / 16) * 16 + c.toNat % 16 := by omega
      rw [Piece.of, if_pos control, if_pos control]
      nth_rewrite 1 [digits]
      exact .unit (.inl rfl) (.inl rfl) (hexDigit_hexDigit (by omega)) (hexDigit_hexDigit (by omega))
    · rw [Piece.of, if_neg control, if_neg control]
      exact .plain (Nat.le_of_not_lt control) (fun same => listed (.inl same)) (fun same => listed (.inr same))

theorem piecesWritten_escape (cs : List Char) : PiecesWritten (cs.map Piece.of) (cs.flatMap escape) := by
  induction cs with
  | nil => exact .nil
  | cons c cs ih => exact .cons (Piece.written_escape c) ih

theorem denotes_of (cs : List Char) : Denotes (cs.map Piece.of) cs := by
  induction cs with
  | nil => exact .nil
  | cons c cs ih =>
    rw [List.map_cons, Piece.of]
    split
    · exact .unit ih
    · exact .char ih

theorem Token.written_print (t : Token) : t.Written t.print := by
  match t with
  | .openBrace => exact .openBrace
  | .closeBrace => exact .closeBrace
  | .openBracket => exact .openBracket
  | .closeBracket => exact .closeBracket
  | .comma => exact .comma
  | .colon => exact .colon
  | .null => exact .null
  | .bool b => exact .bool b
  | .number => exact .number ⟨[], by simp, ['0'], [], [], .inl rfl, .inl rfl, .inl rfl, rfl⟩
  | .string (some s) =>
    have written := piecesWritten_escape s.toList
    have denotes := (textAfter_nil_eq_some_iff written s).mpr (denotes_of s.toList)
    refine .string written fun s' => ?_
    rw [← textAfter_nil_eq_some_iff written, denotes]
  | .string none =>
    have written : PiecesWritten [.unit 0xd800] "\\ud800".toList :=
      .cons (.unit (p := 13) (q := 8) (r := 0) (s := 0) (.inl rfl) (.inl rfl) (.inl rfl) (.inl rfl)) .nil
    refine .string written fun s' => ?_
    rw [← textAfter_nil_eq_some_iff written]
    exact iff_of_false nofun nofun

/-- A value is read from its text. -/
theorem parse?_print (v : Json) : parse? v.print = some v := by
  have laid (ts : List Token) : Laid ts (ts.flatMap Token.print) := by
    induction ts with
    | nil => exact .blank nofun
    | cons t ts ih =>
      have noSpace : Blank [] := nofun
      exact .token noSpace t.written_print ih
  exact parse?_eq_some_iff.mpr (by rw [print, String.toList_ofList]; exact laid v.tokens)

end Json

open Json

/-- A list of texts. -/
def Json.texts (lines : List String) : Json := .array (lines.map fun line => .string (some line))

def GlobalEntry.json (g : GlobalEntry) : Json :=
  .object [(some "type", .string (some g.type)), (some "value", .string (some g.value))]

def FunctionEntry.json (f : FunctionEntry) : Json :=
  .object [(some "name", f.name.elim .null fun name => .string (some name)), (some "params", texts f.params),
    (some "results", texts f.results), (some "locals", texts f.locals), (some "body", texts f.body)]

namespace Document

/-- The value of a document, with all its fields. -/
def json (d : Document) : Json :=
  .object [(some "globals", .array (d.globals.map GlobalEntry.json)),
    (some "functions", .array (d.functions.map FunctionEntry.json))]

/-- A text of a document. -/
def print (d : Document) : String := d.json.print

theorem writtenAs_json (d : Document) : d.WrittenAs d.json := by
  have each (lines : List String) : List.Forall₂ IsText (lines.map fun line => .string (some line)) lines := by
    have same (line : String) : IsText (.string (some line)) line := rfl
    exact forall₂_map_self same lines
  have function (f : FunctionEntry) : f.WrittenAs f.json := by
    refine ⟨fields?_eq_some_iff.mp rfl, ?_, .given (each _), .given (each _), .given (each _), each _⟩
    cases f.name with
    | none => exact .null
    | some name => exact .given
  have globals (g : GlobalEntry) : g.WrittenAs g.json := fields?_eq_some_iff.mp rfl
  exact ⟨fields?_eq_some_iff.mp rfl, .given (forall₂_map_self globals _), .given (forall₂_map_self function _)⟩

/-- A document is read from its text. -/
theorem parse_print (d : Document) : parse d.print = .ok d := by
  have read : Json.library.fromText? (ofJson? Json.library) d.print = some d :=
    documented_library.fromText?.mpr
      ⟨d.json, parse?_eq_some_iff.mp (parse?_print d.json),
        (ofJson?_eq_some_iff documented_library).mpr d.writtenAs_json⟩
  rw [parse, parseWith, read]

end Document

end ScopeMachine
