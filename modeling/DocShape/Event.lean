/-!
# `DocShape.Event`: what is logged

Validators log what they do as a sequence of events. An event about one place in the document
carries the path to it.

A path leads from the root of a document to a value inside it, one step for each container on the
way. Its text starts with `$`, writes a field as `.name` and an item as `[index]`, and does not
quote names.
-/

set_option autoImplicit false

namespace DocShape

/-! ### Places in a document -/

/-- One step into a container. -/
inductive PathStep where
  /-- To the value of a field. -/
  | field (name : String)
  /-- To an item, counted from 0. -/
  | index (position : Nat)
  deriving DecidableEq

/-- The steps from the root, outermost first. -/
abbrev FieldPath := List PathStep

/-- The text of a step, letter by letter. -/
def PathStep.letters : PathStep → List Char
  | field name => '.' :: name.toList
  | index position => '[' :: ((toString position).toList ++ [']'])

/-- The text of a path. -/
def FieldPath.text (path : FieldPath) : String :=
  String.ofList ('$' :: path.flatMap PathStep.letters)

/-! ### The log -/

/-- How much an event matters. -/
inductive Level where
  | trace
  | debug
  deriving DecidableEq

/-- The name of a level. -/
def Level.text : Level → String
  | trace => "TRACE"
  | debug => "DEBUG"

/-- One event of the log. -/
inductive Event where
  /-- The shape asks for an object and the value is none. -/
  | expectedObject (path : FieldPath)
  /-- The shape asks for an array and the value is none. -/
  | expectedArray (path : FieldPath)
  /-- The value of a field goes to the validator that the schema names for it. -/
  | delegating (path : FieldPath)
  /-- The schema names a rule for a field that has a shape. -/
  | ruleIgnored (path : FieldPath)
  /-- The schema names a validator for a field that has no shape. -/
  | nestedOnLeaf (path : FieldPath)
  /-- An object is done, with so many keys in its two trees. -/
  | evaluatedObject (path : FieldPath) (failed passed : Nat)
  /-- An array has items and its shape does not say which. -/
  | shapeNotSpecified (path : FieldPath) (length : Nat)
  /-- An array that is not empty is done. -/
  | evaluatedArray (path : FieldPath) (length : Nat) (failed : Bool)
  /-- A validation came to its end. -/
  | finished (valid : Bool)
  /-- A shape text was found among those read before. -/
  | cacheHit (source : String)
  /-- A shape text was read and goes to those read before. -/
  | parsed (source : String) (depth : Nat)
  /-- All shapes read before are forgotten. -/
  | cacheCleared
  deriving DecidableEq

namespace Event

/-- The level of an event. -/
def level : Event → Level
  | expectedObject _ | expectedArray _ | delegating _ | evaluatedObject .. | evaluatedArray ..
  | finished _ | cacheHit _ => .trace
  | ruleIgnored _ | nestedOnLeaf _ | shapeNotSpecified .. | parsed .. | cacheCleared => .debug

/-- The message of an event, without its data. -/
def message : Event → String
  | expectedObject _ => "Expected an object"
  | expectedArray _ => "Expected an array"
  | delegating _ => "Delegating to nested validator"
  | ruleIgnored _ => "Rule on a structured field is ignored"
  | nestedOnLeaf _ => "Nested validator on a leaf field, applying the default rule"
  | evaluatedObject .. => "Evaluated object"
  | shapeNotSpecified .. => "Array shape not specified for non-empty data"
  | evaluatedArray .. => "Evaluated array"
  | finished _ => "Validation finished"
  | cacheHit _ => "Propex cache hit"
  | parsed .. => "Parsed propex"
  | cacheCleared => "Propex cache cleared"

/-- The place that an event is about. -/
def path? : Event → Option FieldPath
  | expectedObject path | expectedArray path | delegating path | ruleIgnored path
  | nestedOnLeaf path | evaluatedObject path _ _ | shapeNotSpecified path _
  | evaluatedArray path _ _ => some path
  | finished _ | cacheHit _ | parsed .. | cacheCleared => none

end Event

end DocShape
