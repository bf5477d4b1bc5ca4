import DocShape.Json.Pointer

/-!
# `DocShape.Outcome`: the result of a validation

A validation gives two trees of the same layout: what passed and what failed. A tree is absent
when there is nothing to say, so a document is valid when there is no tree of errors. The error of
a value that is missing or of the wrong kind is a text in its place.
-/

set_option autoImplicit false

namespace DocShape

/-- What passed and what failed. -/
structure Outcome where
  valid : Option Json
  errors : Option Json
  deriving DecidableEq

namespace Outcome

instance : Inhabited Outcome := ⟨none, none⟩

/-- Nothing passed, for one reason. -/
def failure (message : String) : Outcome :=
  ⟨none, some (.string message)⟩

/-- Everything passed. -/
def passed (value : Json) : Outcome :=
  ⟨some value, none⟩

/-- The outcome of an object, from what passed and what failed of its fields. -/
def ofMembers (valid errors : Members) : Outcome :=
  ⟨some (.object valid), if errors.isEmpty then none else some (.object errors)⟩

/-- The outcome of an array. A missing tree of an item leaves null in its slot. -/
def ofItems (items : List Outcome) : Outcome :=
  -- Both arrays keep the positions of the items, so a slot says to which item it belongs.
  ⟨some (.array (items.map fun item => item.valid.getD .null)),
    if items.any fun item => item.errors.isSome then
      some (.array (items.map fun item => item.errors.getD .null))
    else none⟩

/-- Whether nothing failed. -/
def isValid (outcome : Outcome) : Bool :=
  outcome.errors.isNone

/-- The message, if the whole value failed for one reason. -/
def errorMessage? (outcome : Outcome) : Option String :=
  outcome.errors.bind Json.text?

/-- The error at a place; null is none. -/
def errorAt? (outcome : Outcome) (pointer : String) : Option Json :=
  (outcome.errors.bind (·.atPointer? pointer)).bind Json.nonNull?

/-- What passed at a place. -/
def validAt? (outcome : Outcome) (pointer : String) : Option Json :=
  outcome.valid.bind (·.atPointer? pointer)

/-- What passed, or null. -/
def validTree (outcome : Outcome) : Json :=
  outcome.valid.getD .null

/-- What passed if nothing failed, and what failed otherwise. -/
def toExcept (outcome : Outcome) : Except Json Json :=
  match outcome.errors with
  | none => .ok outcome.validTree
  | some errors => .error errors

/-- The two trees as one value, without the absent ones. -/
def toJson (outcome : Outcome) : Json :=
  .ofMembers ((outcome.valid.map fun tree => ("valid", tree)).toList ++
    (outcome.errors.map fun tree => ("errors", tree)).toList)

end Outcome

end DocShape
