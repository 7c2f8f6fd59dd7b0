import ScopeMachine.Json.Token

/-! # JSON texts

Tokens are read from the left with the arrays and objects that are still open on a stack, so a text
may be nested to any depth. The reader keeps the members of an object as they come, also when keys
are repeated; what a repeated key means is for the one who looks for it.
-/

namespace ScopeMachine

/-- The value of a JSON text, as far as program documents need it. -/
inductive Json where
  | null
  | bool (b : Bool)
  | number
  /-- A string and the text that it denotes, if it denotes one. -/
  | string (text : Option String)
  | array (items : List Json)
  /-- The members in the order of the text, each with its key. -/
  | object (members : List (Option String × Json))
  deriving Repr, Inhabited

namespace Json

/-- An array or object that is still open; what it holds so far comes last first. -/
inductive Enclosing where
  | array (items : List Json)
  /-- An object with the key of the member whose value is being read. -/
  | object (members : List (Option String × Json)) (key : Option String)
  deriving Repr, Inhabited

/-- What may come next, given all open arrays and objects from the inside out. -/
inductive Reader where
  | value (within : List Enclosing)
  /-- The first element of an array, or its end. -/
  | arrayStart (within : List Enclosing)
  | afterItem (items : List Json) (within : List Enclosing)
  /-- The first key of an object, or its end. -/
  | objectStart (within : List Enclosing)
  | memberKey (members : List (Option String × Json)) (within : List Enclosing)
  | memberColon (members : List (Option String × Json)) (key : Option String)
    (within : List Enclosing)
  | afterMember (members : List (Option String × Json)) (within : List Enclosing)
  /-- Nothing more. -/
  | done (v : Json)
  deriving Repr, Inhabited

/-- Puts a complete value where it belongs. -/
def Reader.place (v : Json) : List Enclosing → Reader
  | [] => done v
  | .array items :: within => afterItem (v :: items) within
  | .object members key :: within => afterMember ((key, v) :: members) within

/-- Reads the first token of a value. -/
def Reader.nextValue (within : List Enclosing) : Token → Option Reader
  | .null => some (place .null within)
  | .bool b => some (place (.bool b) within)
  | .number => some (place .number within)
  | .string text => some (place (.string text) within)
  | .openBracket => some (arrayStart within)
  | .openBrace => some (objectStart within)
  | .closeBracket | .closeBrace | .comma | .colon => none

/-- Reads one token. -/
def Reader.next : Reader → Token → Option Reader
  | value within, t => nextValue within t
  | arrayStart within, .closeBracket => some (place (.array []) within)
  | arrayStart within, t => nextValue (.array [] :: within) t
  | afterItem items within, .comma => some (value (.array items :: within))
  | afterItem items within, .closeBracket => some (place (.array items.reverse) within)
  | objectStart within, .closeBrace => some (place (.object []) within)
  | objectStart within, .string text => some (memberColon [] text within)
  | memberKey members within, .string text => some (memberColon members text within)
  | memberColon members key within, .colon => some (value (.object members key :: within))
  | afterMember members within, .comma => some (memberKey members within)
  | afterMember members within, .closeBrace => some (place (.object members.reverse) within)
  | _, _ => none

/-- The value of a sequence of tokens. -/
def ofTokens? (tokens : List Token) : Option Json := do
  match ← tokens.foldlM Reader.next (.value []) with
  | .done v => some v
  | _ => none

/-- The value of a JSON text. -/
def parse? (text : String) : Option Json := do ofTokens? (← tokens? text)

/-- The text of a string. -/
def text? : Json → Option String
  | string text => text
  | _ => none

/-- The elements of an array, each read alike. -/
def list? (read : Json → Option α) : Json → Option (List α)
  | array items => items.mapM read
  | _ => none

/-- The fields of a record, in the given order. A record is written as an object, where other keys
are passed over and a field must not be repeated, or as an array of the fields in their order, where
the last ones may be missing. -/
def fields? (names : List String) : Json → Option (List (Option Json))
  | array items =>
    if items.length ≤ names.length then
      some (items.map some ++ List.replicate (names.length - items.length) none)
    else none
  | object members => do
    let members ← members.mapM fun (key, v) => key.map (·, v)
    names.mapM fun name =>
      match members.filter (·.1 == name) with
      | [] => some none
      | [(_, v)] => some (some v)
      | _ => none
  | _ => none

/-- A value that may be null. -/
def optional? (read : Json → Option α) : Json → Option (Option α)
  | null => some none
  | v => (read v).map some

/-- A field that has a default if it may be missing. -/
def field? (default : Option α) (read : Json → Option α) : Option Json → Option α
  | none => default
  | some v => read v

/-- What a document is read with. A reader takes a value for something, or refuses it. -/
structure Library where
  /-- What is read from the value of a JSON text. -/
  fromText? {α : Type} (read : Json → Option α) (text : String) : Option α
  /-- The text of a string. -/
  text? (v : Json) : Option String
  /-- What may be null. -/
  optional? {α : Type} (read : Json → Option α) (v : Json) : Option (Option α)
  /-- A list whose elements are read alike. -/
  list? {α : Type} (read : Json → Option α) (v : Json) : Option (List α)
  /-- What a record holds for each of its fields, which are given in their order. -/
  fields? (names : List String) (v : Json) : Option (List (Option Json))
  /-- A field from what the record holds for it. -/
  field? {α : Type} (default : Option α) (read : Json → Option α) (held : Option Json) : Option α

/-- The library that the reader above makes. -/
def library : Library where
  fromText? read text := parse? text >>= read
  text? := text?
  optional? := optional?
  list? := list?
  fields? := fields?
  field? := field?

end Json

end ScopeMachine
