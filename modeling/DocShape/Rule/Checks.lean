import DocShape.Rule.Basic

/-!
# `DocShape.Rule.Checks`: ready-made tests

Each test that can fail takes the template of its message. A template is a text in which each pair
of braces stands for a value: its text if the value is a string, and nothing otherwise.
-/

set_option autoImplicit false

namespace DocShape

/-- Puts `filling` in place of each pair of braces, from left to right. -/
def fillGaps (filling : List Char) : List Char → List Char
  | '\x7b' :: '\x7d' :: rest => filling ++ fillGaps filling rest
  | c :: rest => c :: fillGaps filling rest
  | [] => []

/-- The template with the text of a value in its gaps. -/
def fillTemplate (template : String) (value : Json) : String :=
  String.ofList (fillGaps (value.text?.getD "").toList template.toList)

namespace Check

/-- Fails with the filled template unless the condition holds. -/
def require (message : String) (condition : Json → Bool) : Check := fun value =>
  if condition value then none else some (fillTemplate message value)

/-- Never fails. -/
def pass : Check := fun _ => none

/-- Always fails. -/
def fail (message : String) : Check :=
  require message fun _ => false

/-- Asks for one value. -/
def equal (message : String) (expected : Json) : Check :=
  require message fun value => value.agrees expected

/-- Asks for a text of at least so many characters. What is not a text has none. -/
def minLength (message : String) (least : Nat) : Check :=
  require message fun value => least ≤ (value.text?.getD "").length

/-- The number of items or members, 0 for what is no container. -/
def count : Json → Nat
  | .array items => items.length
  | .object members => members.length
  | _ => 0

/-- Asks for at most so many items or members. -/
def maxCount (message : String) (most : Nat) : Check :=
  require message fun value => count value ≤ most

/-- Asks for a signed integer of 64 bits between two bounds. -/
def between (message : String) (low high : Int) : Check :=
  require message fun
    | .number (.integer n) =>
      -- A value may hold larger integers than are asked for here, whatever the bounds.
      Int64.minValue.toInt ≤ n && n ≤ Int64.maxValue.toInt && low ≤ n && n ≤ high
    | _ => false

/-- Asks for a kind of value. -/
def ofKind (message : String) (kind : Kind) : Check :=
  require message fun value => value.kind = kind

/-- Fails as the first of several tests that fails. -/
def all (checks : List Check) : Check := fun value =>
  checks.findSome? fun check => check value

end Check

end DocShape
