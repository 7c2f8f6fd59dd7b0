import ScopeMachine.Error
import ScopeMachine.Json.Basic

/-! # Program documents

A program document lists globals and functions as texts: types by name, values as literals and
bodies line by line. It is written in JSON; lists that are empty may be left out, except for
bodies.
-/

namespace ScopeMachine

/-- A global of a document. -/
structure GlobalEntry where
  type : String
  value : String
  deriving DecidableEq, Repr, Inhabited

/-- A function of a document, which is exported if it has a name. -/
structure FunctionEntry where
  name : Option String := none
  params : List String := []
  results : List String := []
  locals : List String := []
  body : List String
  deriving DecidableEq, Repr, Inhabited

/-- A program as it is written down. -/
structure Document where
  globals : List GlobalEntry := []
  functions : List FunctionEntry := []
  deriving DecidableEq, Repr, Inhabited

namespace Document

section

variable (library : Json.Library)

def globalOfJson? (v : Json) : Option GlobalEntry := do
  match ← library.fields? ["type", "value"] v with
  | [type, value] => return {
      type := ← library.field? none library.text? type
      value := ← library.field? none library.text? value }
  | _ => none

def functionOfJson? (v : Json) : Option FunctionEntry := do
  match ← library.fields? ["name", "params", "results", "locals", "body"] v with
  | [name, params, results, locals, body] => return {
      name := ← library.field? (some none) (library.optional? library.text?) name
      params := ← library.field? (some []) (library.list? library.text?) params
      results := ← library.field? (some []) (library.list? library.text?) results
      locals := ← library.field? (some []) (library.list? library.text?) locals
      body := ← library.field? none (library.list? library.text?) body }
  | _ => none

/-- The document that a JSON value describes. -/
def ofJson? (v : Json) : Option Document := do
  match ← library.fields? ["globals", "functions"] v with
  | [globals, functions] => return {
      globals := ← library.field? (some []) (library.list? (globalOfJson? library)) globals
      functions := ← library.field? (some []) (library.list? (functionOfJson? library)) functions }
  | _ => none

/-- Reads a written document with the given library. -/
def parseWith (text : String) : Except Malformed Document :=
  match library.fromText? (ofJson? library) text with
  | some d => .ok d
  | none => .error .invalidDocument

end

/-- Reads a written document. -/
def parse (text : String) : Except Malformed Document := parseWith Json.library text

end Document

end ScopeMachine
