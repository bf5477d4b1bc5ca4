import DocShape.Shape.Error

/-!
# `DocShape.Validator.Error`: why a validation gives no outcome
-/

set_option autoImplicit false

namespace DocShape

/-- Why a validation gives no outcome. -/
inductive ValidateError where
  /-- The shape text is at fault. -/
  | shapeText (error : SyntaxError)
  /-- An array has items and its shape does not say which. -/
  | shapeNotSpecified (path : String) (length : Nat)
  /-- The record to look at has no JSON form. -/
  | json (detail : String)
  deriving DecidableEq

namespace ValidateError

/-- The code of the error. -/
def code : ValidateError → String
  | shapeText error => error.code
  | shapeNotSpecified .. => "VALIDATE:SHAPE_NOT_SPECIFIED"
  | json _ => "VALIDATE:JSON"

/-- The message of the error. -/
def message : ValidateError → String
  | shapeText error => error.message
  | shapeNotSpecified path length =>
    "Array shape not specified at '" ++ path ++
      "': propex declares no element shape but the data has " ++ toString length ++ " element(s)"
  | json detail => "JSON error: " ++ detail

/-- Whether the shape text is at fault. -/
def isShapeText : ValidateError → Bool
  | shapeText _ => true
  | _ => false

/-- Whether shape and document do not go together. -/
def isConfiguration : ValidateError → Bool
  | shapeNotSpecified .. => true
  | _ => false

end ValidateError

end DocShape
