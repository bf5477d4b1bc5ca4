/-!
# `DocShape.Shape.Error`: what can be wrong with a shape text

One constructor for each fault, with the place where it was found. Places are byte offsets into
the UTF-8 form of the text. Only a text without any shape has no place to point at.
-/

set_option autoImplicit false

namespace DocShape

/-- A fault of a shape text. -/
inductive SyntaxError where
  /-- The text holds nothing but white space. -/
  | empty
  /-- The first character opens no shape. -/
  | unexpectedRoot (found : Char) (offset : Nat)
  /-- A field name is missing in front of the delimiter at `offset`. -/
  | emptyFieldName (offset : Nat)
  /-- The bracket at `offset` has no partner. -/
  | unclosed (opening : Char) (offset : Nat)
  /-- Something else had to stand at `offset`. -/
  | unexpected (expected : String) (found : Char) (offset : Nat)
  /-- The text goes on behind a complete shape. -/
  | trailingInput (offset : Nat)
  /-- The second field of one name, which starts at `offset`. -/
  | duplicateField (name : String) (offset : Nat)
  /-- The bracket at `offset` opens one container too many. -/
  | tooDeep (limit : Nat) (offset : Nat)
  deriving DecidableEq

namespace SyntaxError

/-- Where the fault is, as a byte offset. -/
def offset? : SyntaxError → Option Nat
  | empty => none
  | unexpectedRoot _ offset => some offset
  | emptyFieldName offset => some offset
  | unclosed _ offset => some offset
  | unexpected _ _ offset => some offset
  | trailingInput offset => some offset
  | duplicateField _ offset => some offset
  | tooDeep _ offset => some offset

/-- The code of the fault. -/
def code : SyntaxError → String
  | empty => "PROPEX:EMPTY"
  | unexpectedRoot .. => "PROPEX:ROOT"
  | emptyFieldName .. => "PROPEX:EMPTY_FIELD"
  | unclosed .. => "PROPEX:UNCLOSED"
  | unexpected .. => "PROPEX:UNEXPECTED"
  | trailingInput .. => "PROPEX:TRAILING"
  | duplicateField .. => "PROPEX:DUPLICATE_FIELD"
  | tooDeep .. => "PROPEX:TOO_DEEP"

/-- What the fault is, without its place. -/
def detail : SyntaxError → String
  | empty => "expression is empty"
  | unexpectedRoot found _ => "expected '\x7b' or '[' but found '" ++ found.toString ++ "'"
  | emptyFieldName _ => "field name is empty"
  | unclosed opening _ => "'" ++ opening.toString ++ "' is never closed"
  | unexpected expected found _ =>
    "expected " ++ expected ++ ", found '" ++ found.toString ++ "'"
  | trailingInput _ => "unexpected input after the root shape"
  | duplicateField name _ => "field '" ++ name ++ "' is declared twice"
  | tooDeep limit _ => "nesting exceeds the limit of " ++ toString limit

/-- The message of the fault. -/
def message (error : SyntaxError) : String :=
  match error.offset? with
  | none => "Propex syntax error: " ++ error.detail
  | some offset => "Propex syntax error at " ++ toString offset ++ ": " ++ error.detail

end SyntaxError

end DocShape
