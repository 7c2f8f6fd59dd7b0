import ScopeMachine.Value

/-! # Block types

A scope is annotated with the types of its parameters and of its results. The annotation is written
as sections, such as (param i32) (result i32 i32), and empty sections are left out. Read back word
by word, parentheses aside, each type belongs to the section named last before it, so sections may
also be repeated, empty or in the other order.
-/

namespace ScopeMachine

/-- Parameter and result types of a scope. -/
structure BlockType where
  params : List ValueType := []
  results : List ValueType := []
  deriving DecidableEq, Repr, Inhabited

namespace BlockType

def empty : BlockType := {}

def isEmpty (t : BlockType) : Bool := t.params.isEmpty && t.results.isEmpty

/-- The two sections of an annotation. -/
inductive Part where
  | params
  | results
  deriving DecidableEq, Repr, Inhabited

def Part.label : Part → String
  | params => "param"
  | results => "result"

/-- Puts a type in front of a section. -/
def cons (part : Part) (type : ValueType) (t : BlockType) : BlockType :=
  match part with
  | .params => { t with params := type :: t.params }
  | .results => { t with results := type :: t.results }

/-- Reads the words of an annotation inside the section opened last, if one has been opened. -/
def ofWords : Option Part → List String → Except Malformed BlockType
  | _, [] => .ok empty
  | _, "param" :: rest => ofWords (some .params) rest
  | _, "result" :: rest => ofWords (some .results) rest
  | part, word :: rest => do
    let type ← ValueType.ofName word
    match part with
    | none => throw .invalidBlockType
    | some part => return cons part type (← ofWords (some part) rest)

/-- A written section, or nothing when the section is empty. -/
def writePart (part : Part) (types : List ValueType) : List String :=
  if types.isEmpty then []
  else ["(" ++ " ".intercalate (part.label :: types.map ValueType.name) ++ ")"]

/-- The written annotation. -/
def text (t : BlockType) : String :=
  " ".intercalate (writePart .params t.params ++ writePart .results t.results)

end BlockType

end ScopeMachine
