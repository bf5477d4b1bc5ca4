import DocShape.Proofs.Validator.Runs

/-!
# `DocShape.Proofs.Validator.Parts`: what a whole evaluation has from its parts

Every evaluation along a shape is put together from a few kinds of parts: those that only write
notes, requests to a catalog, and the error about items that a shape says nothing about. They
follow each other, or are done one step inside. A property that all these kinds hand on is one of
the whole (`Compositional.evaluate`). Requests may be left out for some catalogs, as long as the
validator does not use them.
-/

set_option autoImplicit false

namespace DocShape

namespace Evaluation

/-- Ends the evaluation at items that the shape says nothing about. -/
def giveUp (length : Nat) : Evaluation Outcome := do
  log fun path => .shapeNotSpecified path length
  throw (.shapeNotSpecified (← get).path.text length)

/-- A property that goes from the parts of an evaluation to the whole. Requests need to have it
only for the catalogs that are admitted. -/
structure Compositional (property : (α : Type) → Evaluation α → Prop)
    (admits : Catalog → Prop) : Prop where
  /-- Parts that write notes about the place where the walk is. -/
  write : ∀ {α : Type} {act : Evaluation α} {value : α} (notes : FieldPath → List Note),
    (∀ walk, act.run walk = .ok value (walk.write (notes walk.path))) → property α act
  require : ∀ {catalog : Catalog}, admits catalog → property String (Evaluation.require catalog)
  giveUp : ∀ length, property Outcome (Evaluation.giveUp length)
  inside : ∀ {α : Type} {act : Evaluation α} (step : PathStep),
    property α act → property α (Evaluation.inside step act)
  /-- The second part only has to have the property for what the first can give. -/
  bind : ∀ {α β : Type} {first : Evaluation α} {next : α → Evaluation β}, property α first →
    (∀ middle, Gives first middle → property β (next middle)) → property β (first >>= next)

namespace Compositional

variable {property : (α : Type) → Evaluation α → Prop} {admits : Catalog → Prop}
  (parts : Compositional property admits)
include parts

/-- To return a value has the property. -/
theorem pure {α : Type} (value : α) : property α (Pure.pure value) :=
  parts.write (fun _ => []) fun walk => by
    rw [Walk.write_nil]
    rfl

/-- To write an event has the property. -/
theorem log (event : FieldPath → Event) : property Unit (Evaluation.log event) :=
  parts.write (fun path => [.event (event path)]) (run_log event)

/-- To judge a leaf has the property. -/
theorem leaf (scope : Validator) (name : String) (value : Json) (draft : Draft) :
    property Draft (Evaluation.leaf scope name value draft) :=
  parts.write (leafNotes scope name value) (run_leaf scope name value draft)

/-- To hand a field over has the property. -/
theorem delegate (scope : Validator) (name : String) :
    property Validator (Evaluation.delegate scope name) :=
  parts.write (delegateNotes scope name) (run_delegate scope name)

/-- To refuse a value of the wrong kind has the property, if the catalog is admitted. -/
theorem refuse {catalog : Catalog} (hcatalog : admits catalog) (event : FieldPath → Event) :
    property Outcome (Evaluation.refuse catalog event) :=
  parts.bind (parts.log event) fun _ _ =>
    parts.bind (parts.require hcatalog) fun message _ => parts.pure (Outcome.failure message)

/-- A field without a value fails with a message of the catalog. -/
theorem absent {catalog : Catalog} (hcatalog : admits catalog) (draft : Draft) (name : String) :
    property Draft (do return draft.fail name (← Evaluation.require catalog)) :=
  parts.bind (parts.require hcatalog) fun message _ => parts.pure (draft.fail name message)

/-- Items that are evaluated in order have the property if each of them has. -/
theorem eachItem {act : Json → Evaluation Outcome} (h : ∀ item, property Outcome (act item))
    (items : List Json) (position : Nat) :
    property (List Outcome) (Evaluation.eachItem act position items) := by
  induction items generalizing position with
  | nil => exact parts.pure []
  | cons item rest ih =>
    refine parts.bind (parts.inside (.index position) (h item)) fun outcome _ => ?_
    exact parts.bind (ih (position + 1)) fun outcomes _ => parts.pure (outcome :: outcomes)

mutual

/-- The evaluation along a shape has the property, if all catalogs that are used are admitted. -/
theorem evaluate (shape : Shape) {scope : Validator}
    (hadmits : ∀ other, scope.Uses other → admits other.catalog) (value : Json) :
    property Outcome (shape.evaluate scope value) := by
  have hcatalog := hadmits scope (.itself scope)
  -- A value of the wrong kind is refused. For the others the recursion is that of the evaluation.
  by_cases hkind : value.kind = shape.kind
  · match shape with
    | .object fields =>
      obtain ⟨members, rfl⟩ := Json.exists_of_kind_object hkind
      refine parts.bind (evaluateAll fields hadmits members {}) fun draft _ => ?_
      exact parts.bind (parts.log _) fun _ _ => parts.pure draft.outcome
    | .emptyArray =>
      obtain ⟨items, rfl⟩ := Json.exists_of_kind_array hkind
      cases items with
      | nil => exact parts.pure (Outcome.passed (.array []))
      | cons item rest => exact parts.giveUp (item :: rest).length
    | .arrayOf element =>
      obtain ⟨items, rfl⟩ := Json.exists_of_kind_array hkind
      cases items with
      | nil => exact parts.pure (Outcome.passed (.array []))
      | cons item rest =>
        have hitems := parts.eachItem (fun item => evaluate element hadmits item) (item :: rest) 0
        refine parts.bind hitems fun outcomes _ => ?_
        exact parts.bind (parts.log _) fun _ _ => parts.pure (Outcome.ofItems outcomes)
  · rw [Shape.evaluate_of_kind_ne hkind]
    exact parts.refuse hcatalog shape.refusal

/-- The evaluation of a field has the property. -/
theorem evaluateField (field : Field) {scope : Validator}
    (hadmits : ∀ other, scope.Uses other → admits other.catalog) (members : Members)
    (draft : Draft) : property Draft (field.evaluate scope members draft) := by
  have hcatalog := hadmits scope (.itself scope)
  match field with
  | .leaf name =>
    rw [Field.evaluate_leaf]
    refine parts.inside (.field name) ?_
    split
    · exact parts.absent hcatalog draft name
    · exact parts.leaf scope name _ draft
  | .nested name inner =>
    rw [Field.evaluate_nested]
    refine parts.inside (.field name) ?_
    split
    · exact parts.absent hcatalog draft name
    · refine parts.bind (parts.delegate scope name) fun other hother => ?_
      -- The validator in charge of the value is one that the scope uses.
      rw [gives_delegate hother]
      refine parts.bind (evaluate inner (fun other uses => hadmits other uses.of_scopeFor) _) ?_
      exact fun outcome _ => parts.pure (draft.splice name outcome)

/-- The evaluation of fields in order has the property. -/
theorem evaluateAll (fields : List Field) {scope : Validator}
    (hadmits : ∀ other, scope.Uses other → admits other.catalog) (members : Members)
    (draft : Draft) : property Draft (Field.evaluateAll scope members draft fields) := by
  match fields with
  | [] => exact parts.pure draft
  | first :: rest =>
    refine parts.bind (evaluateField first hadmits members draft) fun middle _ => ?_
    exact evaluateAll rest hadmits members middle

end

end Compositional

end Evaluation

end DocShape
