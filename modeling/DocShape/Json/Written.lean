import DocShape.Json.Basic

/-!
# `DocShape.Json.Written`: a JSON text as it was written

A text that follows the JSON grammar may still say less than a value: an escape can name half of
a surrogate pair, and an object can give a key twice. `Written` keeps both, so that a reader of
settings can look past what it does not use and object to what it does. `Written.value?` gives
the value, if every text in it is made of characters.
-/

set_option autoImplicit false

namespace DocShape

/-- A quoted text, character by character; `none` stands for half of a surrogate pair. -/
abbrev WrittenText := List (Option Char)

/-- A JSON text after reading, before it is given a meaning. -/
inductive Written where
  | null
  | bool (value : Bool)
  | number (value : Number)
  | text (characters : WrittenText)
  | array (items : List Written)
  | object (members : List (WrittenText × Written))

instance : Inhabited Written := ⟨.null⟩

/-- The string, if every character is whole. -/
def WrittenText.string? (characters : WrittenText) : Option String :=
  (characters.mapM id).map String.ofList

/-- A string as its characters. -/
def WrittenText.ofString (s : String) : WrittenText :=
  s.toList.map some

mutual

/-- The value that was written, where the last of several values of a key counts. -/
def Written.value? : Written → Option Json
  | .null => some .null
  | .bool b => some (.bool b)
  | .number n => some (.number n)
  | .text characters => (WrittenText.string? characters).map .string
  | .array items => (Written.items? items).map .array
  | .object members => (Written.members? members).map Json.ofMembers

/-- The values of items, in order. -/
def Written.items? : List Written → Option (List Json)
  | [] => some []
  | item :: items => do
    let value ← item.value?
    let values ← Written.items? items
    return value :: values

/-- The values of members, in the order written. -/
def Written.members? : List (WrittenText × Written) → Option (List (String × Json))
  | [] => some []
  | (characters, item) :: rest => do
    let key ← WrittenText.string? characters
    let value ← item.value?
    let values ← Written.members? rest
    return (key, value) :: values

end

mutual

/-- A value as it would be written. -/
def Json.written : Json → Written
  | .null => .null
  | .bool b => .bool b
  | .number n => .number n
  | .string s => .text (WrittenText.ofString s)
  | .array items => .array (Json.writtenItems items)
  | .object members => .object (Json.writtenMembers members)

/-- Items as they would be written. -/
def Json.writtenItems : List Json → List Written
  | [] => []
  | item :: items => item.written :: Json.writtenItems items

/-- Members as they would be written. -/
def Json.writtenMembers : List (String × Json) → List (WrittenText × Written)
  | [] => []
  | (key, value) :: rest => (WrittenText.ofString key, value.written) :: Json.writtenMembers rest

end

end DocShape
