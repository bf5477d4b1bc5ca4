import DocShape.Record
import DocShape.Session

/-!
# `DocShape.Validator.Validate`: validating documents

A document is validated along a shape, along the text of a shape, or as a record that is turned
into a document first. The text is read before the record is looked at, so that its fault comes
first.
-/

set_option autoImplicit false

namespace DocShape

namespace Validator

/-- Runs a walk that starts at the root of a document. -/
def walk {α : Type} (act : Evaluation α) : Session (Except ValidateError α) := do
  let store ← get
  -- An error takes nothing back: counters that moved and notes that were made stay.
  match act.run { counters := store.counters, journal := store.journal, path := [] } with
  | .ok result walk =>
    set { store with counters := walk.counters, journal := walk.journal }
    return .ok result
  | .error error walk =>
    set { store with counters := walk.counters, journal := walk.journal }
    return .error error

/-- Validates a document along a shape. -/
def validateShape (validator : Validator) (shape : Shape) (document : Json) :
    Session (Except ValidateError Outcome) := do
  match ← walk (shape.evaluate validator document) with
  | .error error => return .error error
  | .ok outcome =>
    Session.log (.finished outcome.isValid)
    return .ok outcome

/-- The shape of a text, from the cache if there is one. -/
def parse (validator : Validator) (source : String) :
    Session (Except SyntaxError StampedShape) :=
  match validator.cache with
  | some cache => cache.getOrParse source
  | none => Shape.read source validator.maxDepth

/-- Validates a document along the shape of a text. -/
def validate (validator : Validator) (source : String) (document : Json) :
    Session (Except ValidateError Outcome) := do
  match ← validator.parse source with
  | .error error => return .error (.shapeText error)
  | .ok found => validator.validateShape found.shape document

/-- Validates a record along the shape of a text. -/
def validateRecord (validator : Validator) (source : String) (record : Record) :
    Session (Except ValidateError Outcome) := do
  match ← validator.parse source with
  | .error error => return .error (.shapeText error)
  | .ok found =>
    match record.toJson with
    | .error error => return .error (.json error.message)
    | .ok document => validator.validateShape found.shape document

/-- The number of shapes in the cache, 0 without one. -/
def cacheLength (validator : Validator) : Session Nat :=
  match validator.cache with
  | some cache => cache.length
  | none => return 0

/-- Forgets the shapes in the cache. -/
def clearCache (validator : Validator) : Session Unit :=
  match validator.cache with
  | some cache => cache.clear
  | none => return ()

end Validator

end DocShape
