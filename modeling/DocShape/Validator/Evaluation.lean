import DocShape.Event
import DocShape.Outcome
import DocShape.Validator.Basic
import DocShape.Validator.Error

/-!
# `DocShape.Validator.Evaluation`: walking a document along a shape

`Shape.evaluate` walks a shape and a value together and collects what passes and what fails.

* A field that is missing or null fails with a message of the catalog, and so does a value that is
  no container of the kind its shape asks for.
* A leaf field goes to the rule that its name resolves to.
* A field with a shape is evaluated along that shape, by the validator that its name resolves to
  or else by the one that is at work.
* All items of an array are evaluated along its element shape. An array shape without one takes
  only the empty array; items are an error then, which ends the whole evaluation.

The walk keeps a journal. It notes the events of the log, the messages asked for and the values
put to a test, in their order. The path to the value at work is kept as a stack, and stays where
it was when an error ends the walk.
-/

set_option autoImplicit false

namespace DocShape

/-- One note of a journal. -/
inductive Note where
  /-- An event of the log. -/
  | event (event : Event)
  /-- A catalog was asked for a message and gave this one. -/
  | requested (catalog : Catalog) (message : String)
  /-- The value at a path was put to the test of a rule. -/
  | tested (path : FieldPath) (value : Json)

/-- The event of a note about one. -/
def Note.event? : Note → Option Event
  | event logged => some logged
  | _ => none

/-- What a walk changes. -/
structure Walk where
  /-- The counters that catalogs use. -/
  counters : Counters
  /-- All notes so far, oldest first. -/
  journal : List Note
  /-- The path to the value at work. -/
  path : FieldPath

/-- A part of a walk. An error ends it and leaves the walk as it is. -/
abbrev Evaluation := EStateM ValidateError Walk

namespace Evaluation

/-- Adds a note to the journal. -/
def note (note : Note) : Evaluation Unit :=
  modify fun walk => { walk with journal := walk.journal ++ [note] }

/-- Logs an event about the value at work. -/
def log (event : FieldPath → Event) : Evaluation Unit := do
  note (.event (event (← get).path))

/-- Asks a catalog for a message. -/
def require (catalog : Catalog) : Evaluation String := do
  -- The message is that of the turn before the counter moves.
  let counters := (← get).counters
  let message := catalog.message counters
  modify fun walk => { walk with counters := catalog.advance counters }
  note (.requested catalog message)
  return message

/-- Does something one step further inside the value at work. -/
def inside {α : Type} (step : PathStep) (act : Evaluation α) : Evaluation α := do
  modify fun walk => { walk with path := walk.path ++ [step] }
  -- An error inside skips the step back, so the path shows where it came up.
  let result ← act
  modify fun walk => { walk with path := walk.path.dropLast }
  return result

/-- Gives up a value of the wrong kind, after logging it. -/
def refuse (catalog : Catalog) (event : FieldPath → Event) : Evaluation Outcome := do
  log event
  return .failure (← require catalog)

/-- Evaluates items in order, each one step inside. -/
def eachItem (act : Json → Evaluation Outcome) (position : Nat) :
    List Json → Evaluation (List Outcome)
  | [] => return []
  | item :: rest => do
    let outcome ← inside (.index position) (act item)
    let outcomes ← eachItem act (position + 1) rest
    return outcome :: outcomes

end Evaluation

/-- What passed and what failed of the fields of an object so far. -/
structure Draft where
  valid : Members := []
  errors : Members := []

namespace Draft

/-- Notes that a field failed. -/
def fail (draft : Draft) (name message : String) : Draft :=
  { draft with errors := Members.insert name (.string message) draft.errors }

/-- Lets a rule keep a leaf field that passed. -/
def assign (draft : Draft) (rule : Rule) (field : FieldContext) : Draft :=
  { draft with valid := rule.assign field draft.valid }

/-- Puts the trees of a field that has a shape in their places. -/
def splice (draft : Draft) (name : String) (outcome : Outcome) : Draft where
  valid := match outcome.valid with
    | some tree => Members.insert name tree draft.valid
    | none => draft.valid
  errors := match outcome.errors with
    | some tree => Members.insert name tree draft.errors
    | none => draft.errors

/-- The outcome once all fields are done. -/
def outcome (draft : Draft) : Outcome :=
  .ofMembers draft.valid draft.errors

end Draft

namespace Evaluation

/-- Puts a leaf value to the rule that its name resolves to. -/
def leaf (scope : Validator) (name : String) (value : Json) (draft : Draft) :
    Evaluation Draft := do
  let resolution := scope.resolve name
  -- A leaf has no fields to look at, so a validator for it is only remarked on.
  if resolution.isNested then log .nestedOnLeaf
  let rule := resolution.leafRule
  if rule.hasTest then note (.tested (← get).path value)
  match rule.check value with
  | some message => return draft.fail name message
  | none => return draft.assign rule ⟨name, value⟩

/-- The validator that evaluates a field with a shape. -/
def delegate (scope : Validator) (name : String) : Evaluation Validator :=
  match scope.resolve name with
  | .default => return scope
  | .rule _ => do
    -- A rule is for leaves, so the fields below stay with this validator.
    log .ruleIgnored
    return scope
  | .nested validator => do
    log .delegating
    return validator

end Evaluation

open Evaluation

mutual

/-- Evaluates a value along a shape. The validator whose schema and catalog apply is `scope`. -/
def Shape.evaluate (scope : Validator) (value : Json) : Shape → Evaluation Outcome
  | .object fields =>
    match value with
    | .object members => do
      let draft ← Field.evaluateAll scope members {} fields
      log fun path => .evaluatedObject path draft.errors.length draft.valid.length
      return draft.outcome
    | _ => refuse scope.catalog .expectedObject
  | .emptyArray =>
    match value with
    -- An empty array passes without an event, here and below.
    | .array [] => return .passed (.array [])
    | .array items => do
      log fun path => .shapeNotSpecified path items.length
      -- The path stays where it is, so the error can be placed from the walk alone.
      throw (.shapeNotSpecified (← get).path.text items.length)
    | _ => refuse scope.catalog .expectedArray
  | .arrayOf element =>
    match value with
    | .array [] => return .passed (.array [])
    | .array items => do
      let outcomes ← eachItem (fun item => element.evaluate scope item) 0 items
      let outcome := Outcome.ofItems outcomes
      log fun path => .evaluatedArray path items.length outcome.errors.isSome
      return outcome
    | _ => refuse scope.catalog .expectedArray

/-- Evaluates one field of an object with the given members, one step inside. -/
def Field.evaluate (scope : Validator) (members : Members) (draft : Draft) :
    Field → Evaluation Draft
  | .leaf name =>
    inside (.field name) do
      match (Members.get? name members).bind Json.nonNull? with
      | none => return draft.fail name (← require scope.catalog)
      | some value => leaf scope name value draft
  | .nested name shape =>
    inside (.field name) do
      match (Members.get? name members).bind Json.nonNull? with
      | none => return draft.fail name (← require scope.catalog)
      | some value =>
        let inner ← delegate scope name
        return draft.splice name (← shape.evaluate inner value)

/-- Evaluates fields in order. -/
def Field.evaluateAll (scope : Validator) (members : Members) (draft : Draft) :
    List Field → Evaluation Draft
  | [] => return draft
  | field :: rest => do
    let draft ← field.evaluate scope members draft
    Field.evaluateAll scope members draft rest

end

end DocShape
