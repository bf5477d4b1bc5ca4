import DocShape.Json.Basic
import DocShape.Text.Place

/-!
# `DocShape.Json.Pointer`: pointers into a value

A pointer leads from a value to a part of it. Its text is empty, or gives each step behind a
slash. In a step, `~1` stands for a slash and `~0` for a tilde. A step into an array is the
position of an item in decimal digits, without leading zeros.
-/

set_option autoImplicit false

namespace DocShape

/-- The steps of a pointer, outermost first. -/
abbrev Pointer := List String

namespace Pointer

/-- Splits at every slash. -/
def splitSlashes : List Char → List (List Char)
  | [] => [[]]
  | c :: rest =>
    if c = '/' then [] :: splitSlashes rest
    else
      match splitSlashes rest with
      | first :: others => (c :: first) :: others
      | [] => [[c]]

/-- A step without its escapes. A tilde that escapes nothing stands for itself. -/
def unescape : List Char → List Char
  | '~' :: '1' :: rest => '/' :: unescape rest
  | '~' :: '0' :: rest => '~' :: unescape rest
  | c :: rest => c :: unescape rest
  | [] => []

/-- A step with escapes. -/
def escape (letters : List Char) : List Char :=
  letters.flatMap fun c =>
    if c = '~' then ['~', '0'] else if c = '/' then ['~', '1'] else [c]

/-- Reads the text of a pointer. -/
def read? (source : String) : Option Pointer :=
  match source.toList with
  | [] => some []
  -- The text is split before the escapes go, so an escaped slash splits nothing.
  | '/' :: rest => some ((splitSlashes rest).map fun step => String.ofList (unescape step))
  | _ => none

/-- The text of a pointer. -/
def text (pointer : Pointer) : String :=
  String.ofList (pointer.flatMap fun step => '/' :: escape step.toList)

/-- The position that a step names. -/
def position? (step : String) : Option Nat :=
  let letters := step.toList
  if letters = [] ∨ ¬letters.all Char.isDigit ∨
      (letters.head? = some '0' ∧ letters.length ≠ 1) then
    none
  else some (digitsValue letters)

end Pointer

namespace Json

/-- The part of a value that one step leads to. -/
def child? (step : String) : Json → Option Json
  | object members => Members.get? step members
  | array items => (Pointer.position? step).bind fun position => items[position]?
  | _ => none

/-- The part of a value that some steps lead to. -/
def at? (value : Json) : Pointer → Option Json
  | [] => some value
  | step :: rest => (value.child? step).bind fun inner => inner.at? rest

/-- The part of a value that the text of a pointer leads to. -/
def atPointer? (value : Json) (source : String) : Option Json :=
  (Pointer.read? source).bind value.at?

end Json

end DocShape
