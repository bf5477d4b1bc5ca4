import DocShape.Json.Printer
import DocShape.Text.Place

/-!
# `DocShape.Record`: typed values as documents

A record is a value of the caller's own types: structures, variants, optional values, maps, text
and numbers. `Record.toJson` gives the document it stands for, or says why there is none.

The keys of a map become texts. Texts, characters and the names of plain variants stand for
themselves, numbers and truth values for their text. Nothing else can be a key. Of several entries
with one key the last is kept.
-/

set_option autoImplicit false

namespace DocShape

/-- A value of the caller's own types. -/
inductive Record where
  /-- An optional value that is not there, or a type without values. -/
  | absent
  /-- An optional value that is there. -/
  | present (inner : Record)
  /-- A named wrapper around one value. -/
  | wrapped (inner : Record)
  | bool (value : Bool)
  | number (value : Number)
  /-- An integer of 128 bits. -/
  | wideInteger (value : Int)
  /-- A binary number that is infinite or not a number. -/
  | notFinite
  | char (value : Char)
  | text (value : String)
  | bytes (values : List Nat)
  | list (items : List Record)
  | map (entries : List (Record × Record))
  | struct (fields : List (String × Record))
  /-- A variant without contents. -/
  | plainVariant (name : String)
  /-- A variant around one value. -/
  | wrapperVariant (name : String) (inner : Record)
  /-- A variant with values by position. -/
  | tupleVariant (name : String) (items : List Record)
  /-- A variant with values by name. -/
  | structVariant (name : String) (fields : List (String × Record))
  /-- A value that refuses to be written. -/
  | failing (message : String)

instance : Inhabited Record := ⟨.absent⟩

/-- Why a record has no document. -/
inductive RecordError where
  /-- An integer fits neither into 64 signed nor into 64 unsigned bits. -/
  | numberOutOfRange
  /-- A key of a map has no text. -/
  | keyNotText
  /-- A key of a map is a binary number without a text. -/
  | keyNotFinite
  /-- A value refused to be written. -/
  | refused (message : String)
  deriving DecidableEq

/-- The message of an error. A refusal is told in the words of the value that refused, with a
place at their end written anew. -/
def RecordError.message : RecordError → String
  | numberOutOfRange => "number out of range"
  | keyNotText => "key must be a string"
  | keyNotFinite => "float key must be finite (got NaN or +/-inf)"
  | refused message => withPlainPlace message

namespace Record

/-- The text of a key. -/
def key : Record → Except RecordError String
  | wrapped inner => inner.key
  | bool true => .ok "true"
  | bool false => .ok "false"
  | number value => .ok value.text
  | wideInteger value => .ok (toString value)
  | notFinite => .error .keyNotFinite
  | char value => .ok value.toString
  | text value => .ok value
  | plainVariant name => .ok name
  | failing message => .error (.refused message)
  | _ => .error .keyNotText

mutual

/-- The document that a record stands for. -/
def toJson : Record → Except RecordError Json
  | absent => .ok .null
  | present inner => inner.toJson
  | wrapped inner => inner.toJson
  | bool value => .ok (.bool value)
  | number value => .ok (.number value)
  | wideInteger value =>
    if Int64.minValue.toInt ≤ value ∧ value < UInt64.size then .ok (.int value)
    else .error .numberOutOfRange
  -- As a value it is written as null, as a key it is an error.
  | notFinite => .ok .null
  | char value => .ok (.string value.toString)
  | text value => .ok (.string value)
  | bytes values => .ok (.array (values.map .nat))
  | list items => return .array (← itemsToJson items)
  | map entries => return .ofMembers (← entriesToJson entries)
  | struct fields => return .ofMembers (← fieldsToJson fields)
  | plainVariant name => .ok (.string name)
  | wrapperVariant name inner => return .ofMembers [(name, ← inner.toJson)]
  | tupleVariant name items => return .ofMembers [(name, .array (← itemsToJson items))]
  | structVariant name fields => return .ofMembers [(name, .ofMembers (← fieldsToJson fields))]
  | failing message => .error (.refused message)

/-- The documents of items, in order. -/
def itemsToJson : List Record → Except RecordError (List Json)
  | [] => .ok []
  | item :: rest => do
    let value ← item.toJson
    return value :: (← itemsToJson rest)

/-- The members of a map, in the order given. -/
def entriesToJson : List (Record × Record) → Except RecordError (List (String × Json))
  | [] => .ok []
  | (key, item) :: rest => do
    let name ← key.key
    let value ← item.toJson
    return (name, value) :: (← entriesToJson rest)

/-- The members of a structure, in the order given. -/
def fieldsToJson : List (String × Record) → Except RecordError (List (String × Json))
  | [] => .ok []
  | (name, item) :: rest => do
    let value ← item.toJson
    return (name, value) :: (← fieldsToJson rest)

end

end Record

end DocShape
