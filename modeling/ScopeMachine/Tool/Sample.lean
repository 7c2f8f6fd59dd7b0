import ScopeMachine.Document.Basic

/-! # Sample programs

Three documents of small programs: arithmetic on two values, the factorial by recursion and by a
loop, and functions whose control flow shows conditions, loops, recursion and a global.
-/

namespace ScopeMachine.Sample

/-- A function of two values that applies one operator to them. -/
def operation (name operator : String) : FunctionEntry :=
  { name, params := ["i32", "i32"], results := ["i32"],
    body := ["local.get 0", "local.get 1", operator] }

/-- The four operations, and the polynomial x * x + 3 * x + 2. -/
def arithmetic : Document where
  functions := [
    operation "add" "i32.add",
    operation "subtract" "i32.sub",
    operation "multiply" "i32.mul",
    operation "divide" "i32.div_s",
    { name := "polynomial", params := ["i32"], results := ["i32"],
      body := ["local.get 0", "local.get 0", "i32.mul",
        "i32.const 3", "local.get 0", "i32.mul", "i32.add", "i32.const 2", "i32.add"] }]

/-- The factorial. -/
def factorial : Document where
  functions := [
    { name := "factorial", params := ["i32"], results := ["i32"], locals := ["i32"],
      body := [
        "local.get 0", "i32.const 1", "i32.le_s",
        "if", "i32.const 1", "local.set 1",
        "else",
          "local.get 0",
          "local.get 0", "i32.const 1", "i32.sub", "call factorial",
          "i32.mul", "local.set 1",
        "end",
        "local.get 1"] },
    { name := "factorial_iter", params := ["i32"], results := ["i32"], locals := ["i32"],
      body := [
        "i32.const 1", "local.set 1",
        "block",
          "loop",
            "local.get 0", "i32.const 1", "i32.le_s", "br_if 1",
            "local.get 1", "local.get 0", "i32.mul", "local.set 1",
            "local.get 0", "i32.const 1", "i32.sub", "local.set 0",
            "br 0",
          "end",
        "end",
        "local.get 1"] }]

/-- A function that keeps the one of two values for which the comparison with the other holds. -/
def choice (name comparison : String) : FunctionEntry :=
  { name, params := ["i32", "i32"], results := ["i32"], locals := ["i32"],
    body := [
      "local.get 0", "local.get 1", comparison,
      "if", "local.get 0", "local.set 2",
      "else", "local.get 1", "local.set 2",
      "end",
      "local.get 2"] }

/-- Conditions, loops, recursion and a counter in a global. -/
def controlFlow : Document where
  globals := [{ type := "i32", value := "0" }]
  functions := [
    choice "max" "i32.gt_s",
    choice "min" "i32.lt_s",
    { name := "abs", params := ["i32"], results := ["i32"],
      body := [
        "local.get 0", "i32.const 0", "i32.lt_s",
        "if", "i32.const 0", "local.get 0", "i32.sub", "local.set 0",
        "end",
        "local.get 0"] },
    { name := "sign", params := ["i32"], results := ["i32"], locals := ["i32"],
      body := [
        "local.get 0", "i32.const 0", "i32.gt_s", "if", "i32.const 1", "local.set 1", "end",
        "local.get 0", "i32.const 0", "i32.lt_s", "if", "i32.const -1", "local.set 1", "end",
        "local.get 1"] },
    { name := "fibonacci", params := ["i32"], results := ["i32"], locals := ["i32", "i32", "i32"],
      body := [
        "i32.const 1", "local.set 2",
        "block",
          "loop",
            "local.get 0", "i32.const 0", "i32.le_s", "br_if 1",
            "local.get 1", "local.get 2", "i32.add", "local.set 3",
            "local.get 2", "local.set 1",
            "local.get 3", "local.set 2",
            "local.get 0", "i32.const 1", "i32.sub", "local.set 0",
            "br 0",
          "end",
        "end",
        "local.get 1"] },
    { name := "fibonacci_rec", params := ["i32"], results := ["i32"], locals := ["i32"],
      body := [
        "local.get 0", "i32.const 2", "i32.lt_s",
        "if", "local.get 0", "local.set 1",
        "else",
          "local.get 0", "i32.const 1", "i32.sub", "call fibonacci_rec",
          "local.get 0", "i32.const 2", "i32.sub", "call fibonacci_rec",
          "i32.add", "local.set 1",
        "end",
        "local.get 1"] },
    { name := "tick", results := ["i32"],
      body := ["global.get 0", "i32.const 1", "i32.add", "global.set 0", "global.get 0"] }]

end ScopeMachine.Sample
