import DocShape.Proofs.Validator.Answers
import DocShape.Proofs.Validator.Drafts

/-!
# `DocShape.Proofs.Validator.Conformance`: valid means conforming

`Shape.conforms` says whether a document conforms to a shape by recursion on the shape alone. It
builds no tree, asks no catalog and looks names up without the resolver. The theorem
`isValid_iff_conforms` says that a validation which gives an outcome calls the document valid
exactly if the document conforms: no failure is lost on the way through drafts, slots and nested
validators, and none is made up.
-/

set_option autoImplicit false

namespace DocShape

mutual

/-- Whether a value conforms to a shape in the scope of a validator. -/
def Shape.conforms (scope : Validator) (value : Json) : Shape → Bool
  | .object fields =>
    match value with
    | .object members => Field.allConform scope members fields
    | _ => false
  | .emptyArray =>
    match value with
    | .array items => items.isEmpty
    | _ => false
  | .arrayOf element =>
    match value with
    | .array items => items.all fun item => element.conforms scope item
    | _ => false

/-- Whether the value of a field conforms. It has to be there and not null. -/
def Field.conforms (scope : Validator) (members : Members) : Field → Bool
  | .leaf name =>
    match Members.present? name members with
    | none => false
    | some value => ((scope.ruleFor name).check value).isNone
  | .nested name shape =>
    match Members.present? name members with
    | none => false
    | some value => shape.conforms (scope.scopeFor name) value

/-- Whether the values of all fields conform. -/
def Field.allConform (scope : Validator) (members : Members) : List Field → Bool
  | [] => true
  | field :: rest => field.conforms scope members && Field.allConform scope members rest

end

open Evaluation

/-- A value of another kind than the shape asks for does not conform. -/
theorem Shape.conforms_of_kind_ne {shape : Shape} {value : Json} (hkind : value.kind ≠ shape.kind)
    (scope : Validator) : shape.conforms scope value = false := by
  cases shape <;> cases value <;> first
    | exact absurd rfl hkind
    | rfl

/-- What conforms is a container of the right kind. -/
theorem Shape.kind_eq_of_conforms {shape : Shape} {scope : Validator} {value : Json}
    (conforms : shape.conforms scope value = true) : value.kind = shape.kind := by
  by_contra hne
  rw [Shape.conforms_of_kind_ne hne] at conforms
  cases conforms

/-- `allConform` speaks of the fields one by one. -/
theorem Field.allConform_iff {scope : Validator} {members : Members} {fields : List Field} :
    Field.allConform scope members fields = true ↔
      ∀ field ∈ fields, field.conforms scope members = true := by
  induction fields with
  | nil => simp [Field.allConform]
  | cons field rest ih => simp [Field.allConform, ih]

mutual

/-- An outcome of a shape is valid exactly if the value conforms. -/
theorem Shape.isValid_of_gives (shape : Shape) {scope : Validator} {value : Json}
    {outcome : Outcome} (h : Gives (shape.evaluate scope value) outcome) :
    outcome.isValid = shape.conforms scope value := by
  -- The kind of the value decides first. With the right one the shape says what is inside.
  by_cases hkind : value.kind = shape.kind
  · match shape with
    | .object fields =>
      obtain ⟨members, rfl⟩ := Json.exists_of_kind_object hkind
      obtain ⟨draft, hfields, rfl⟩ := Shape.gives_object h
      rw [Draft.isValid_outcome, Field.isEmpty_errors_of_gives_all fields hfields]
      rfl
    | .emptyArray =>
      -- Items would have ended the evaluation, so there are none.
      obtain ⟨items, rfl⟩ := Json.exists_of_kind_array hkind
      obtain ⟨rfl, rfl⟩ := Shape.gives_emptyArray h
      rfl
    | .arrayOf element =>
      obtain ⟨items, rfl⟩ := Json.exists_of_kind_array hkind
      obtain ⟨outcomes, hitems, rfl⟩ := Shape.gives_arrayOf h
      have hmap : outcomes.map Outcome.isValid = items.map (element.conforms scope) :=
        map_eq_map_of_forall₂ hitems fun item outcome hitem => element.isValid_of_gives hitem
      have hall := congrArg (List.all · id) hmap
      rw [List.all_map, List.all_map] at hall
      rw [Outcome.isValid_ofItems]
      exact hall
  · obtain ⟨message, rfl⟩ := Shape.gives_of_kind_ne hkind h
    rw [Shape.conforms_of_kind_ne hkind]
    rfl

/-- A field leaves the errors empty exactly if its value conforms. -/
theorem Field.isEmpty_errors_of_gives (field : Field) {scope : Validator} {members : Members}
    {draft result : Draft} (h : Gives (field.evaluate scope members draft) result) :
    result.errors.isEmpty = (draft.errors.isEmpty && field.conforms scope members) := by
  cases hpresent : Members.present? field.name members with
  | none =>
    -- A failure whatever the message says, also if it is empty.
    obtain ⟨message, rfl⟩ := Field.gives_of_absent hpresent h
    cases field <;> simp_all [Field.conforms]
  | some value =>
    match field with
    | .leaf name =>
      rw [Field.name_leaf] at hpresent
      rw [Field.gives_leaf hpresent h, Draft.isEmpty_errors_judge]
      simp only [Field.conforms, hpresent]
    | .nested name shape =>
      rw [Field.name_nested] at hpresent
      obtain ⟨outcome, hvalue, rfl⟩ := Field.gives_nested hpresent h
      rw [Draft.isEmpty_errors_splice, shape.isValid_of_gives hvalue]
      simp only [Field.conforms, hpresent]

/-- Fields that are evaluated in order add no error exactly if all of them conform. -/
theorem Field.isEmpty_errors_of_gives_all (fields : List Field) {scope : Validator}
    {members : Members} {draft result : Draft}
    (h : Gives (Field.evaluateAll scope members draft fields) result) :
    result.errors.isEmpty = (draft.errors.isEmpty && Field.allConform scope members fields) := by
  match fields with
  | [] => rw [Field.gives_nil h, Field.allConform, Bool.and_true]
  | field :: rest =>
    obtain ⟨middle, hfield, hrest⟩ := Field.gives_cons h
    rw [Field.isEmpty_errors_of_gives_all rest hrest, field.isEmpty_errors_of_gives hfield,
      Field.allConform, Bool.and_assoc]

end

/-- A validation that gives an outcome calls the document valid exactly if it conforms. -/
theorem Validator.isValid_iff_conforms {validator : Validator} {shape : Shape} {document : Json}
    {store : Store} {outcome : Outcome}
    (h : (validator.validateShape shape document).answer store = .ok outcome) :
    outcome.isValid = true ↔ shape.conforms validator document = true := by
  rw [shape.isValid_of_gives (gives_of_answer h)]

/-- A validator that refuses one name, with an empty message. -/
def Validator.refusing (name : String) : Validator :=
  { (default : Validator) with
    schema := .ofList [("name", .rule (.ofTest fun value =>
      if value = .string name then some "" else none))] }

/-- The pets of an owner, each with a name. -/
def Shape.pets : Shape :=
  .object [.nested "pets" (.arrayOf (.object [.leaf "name"]))]

/-- An empty message inside a nested validator makes the whole document invalid. -/
theorem Validator.not_conforms_of_empty_message :
    let owner : Validator :=
      { (default : Validator) with schema := .ofList [("pets", .nested (.refusing "lace"))] }
    let document : Json := .object [("pets", .array [
      .object [("name", .string "roojoo")], .object [("name", .string "lace")]])]
    let outcome : Outcome :=
      ⟨some (.object [("pets", .array [.object [("name", .string "roojoo")], .object []])]),
        some (.object [("pets", .array [.null, .object [("name", .string "")]])])⟩
    (owner.validateShape .pets document).answer {} = .ok outcome ∧
      (outcome.isValid = true ↔ Shape.pets.conforms owner document = true) := by
  intro owner document outcome
  have h : (owner.validateShape .pets document).answer {} = .ok outcome := by rfl
  exact ⟨h, Validator.isValid_iff_conforms h⟩

end DocShape
