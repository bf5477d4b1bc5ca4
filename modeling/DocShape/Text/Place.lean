/-!
# `DocShape.Text.Place`: counts and places at the end of a message

A message about a text may end in the place of its fault, as in `no value at line 3 column 14`.
`withPlainPlace` writes that place anew, with its two counts in plain digits. Lines count from 1,
so a place in line 0 is nowhere and is dropped.

The end of a message is read backwards, on its letters last first. `digitsValue` reads a count,
and is used for every number that is read off a text.
-/

set_option autoImplicit false

namespace DocShape

/-- The value of a run of decimal digits, 0 for the empty run. -/
def digitsValue (digits : List Char) : Nat :=
  digits.foldl (fun n c => 10 * n + (c.toNat - '0'.toNat)) 0

/-- A place in a text. -/
structure Place where
  line : Nat
  column : Nat
  deriving DecidableEq

/-- A place as it ends a message. Line 0 is no line, and no place is named for it. -/
def Place.ending (place : Place) : String :=
  if place.line = 0 then ""
  else " at line " ++ toString place.line ++ " column " ++ toString place.column

/-- Takes a count of at most 64 bits off the end of a text, given last letter first. -/
def countAtEnd? (letters : List Char) : Option (Nat × List Char) :=
  let digits := letters.takeWhile Char.isDigit
  -- The letters come last first, the digits of a count do not.
  let value := digitsValue digits.reverse
  if digits.isEmpty ∨ UInt64.size ≤ value then none
  else some (value, letters.dropWhile Char.isDigit)

/-- Takes a word off the end of a text, given last letter first. -/
def wordAtEnd? (word : String) (letters : List Char) : Option (List Char) :=
  word.toList.reverse.isPrefixOf? letters

/-- Takes a place off the end of a message, given last letter first. -/
def placeAtEnd? (letters : List Char) : Option (Place × List Char) := do
  -- Backwards, so the column comes before the line.
  let (column, letters) ← countAtEnd? letters
  let letters ← wordAtEnd? " column " letters
  let (line, letters) ← countAtEnd? letters
  let letters ← wordAtEnd? " at line " letters
  return (⟨line, column⟩, letters)

/-- A message with the place at its end, if there is one, written anew. -/
def withPlainPlace (message : String) : String :=
  match placeAtEnd? message.toList.reverse with
  | some (place, letters) => String.ofList letters.reverse ++ place.ending
  | none => message

end DocShape
