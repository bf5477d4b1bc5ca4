import DocShape.Validator.Basic

/-!
# `DocShape.Proofs.Validator.Lookup`: what the name of a field stands for

While a field is validated its name is looked up twice, in the document for a value and in the
schema for a rule or a validator. The functions here say what is found without the resolver:
a missing value and null are the same, a leaf goes to the rule that the schema names and to the
default rule otherwise, and a structured field to the validator that the schema names and
otherwise to the one at work.

`Validator.Uses` relates a validator to those that can be at work below it.
-/

set_option autoImplicit false

namespace DocShape

/-- The value of a key, unless it is missing or null. -/
def Members.present? (name : String) (members : Members) : Option Json :=
  (Members.get? name members).bind Json.nonNull?

/-- A value is present if it is there and is not null. -/
theorem Members.present?_eq_some_iff {name : String} {members : Members} {value : Json} :
    Members.present? name members = some value ↔
      Members.get? name members = some value ∧ value ≠ .null := by
  unfold Members.present?
  cases Members.get? name members with
  | none => simp
  -- Null is the only value that is dropped, so one case for each kind of value.
  | some found => cases found <;> simp [Json.nonNull?] <;> grind

namespace Validator

/-- The rule for a leaf field. -/
def ruleFor (validator : Validator) (name : String) : Rule :=
  match OrderedMap.get? validator.schema name with
  | some (.rule rule) => rule
  | _ => .passthrough

/-- The validator for a field with a shape. -/
def scopeFor (validator : Validator) (name : String) : Validator :=
  match OrderedMap.get? validator.schema name with
  | some (.nested inner) => inner
  | _ => validator

/-- The resolver gives a leaf field its rule. -/
theorem leafRule_resolve (validator : Validator) (name : String) :
    (validator.resolve name).leafRule = validator.ruleFor name := by
  unfold resolve Schema.resolve ruleFor
  cases OrderedMap.get? validator.schema name with
  | none => rfl
  | some entry => cases entry <;> rfl

/-- Where the schema names a validator, the field goes there, and it stays otherwise. -/
theorem scopeFor_eq (validator : Validator) (name : String) :
    validator.scopeFor name =
      match validator.resolve name with
      | .nested inner => inner
      | _ => validator := by
  unfold scopeFor resolve Schema.resolve
  cases OrderedMap.get? validator.schema name with
  | none => rfl
  | some entry => cases entry <;> rfl

/-- No rule of the schema has a setter. -/
def SetterFree (validator : Validator) : Prop :=
  ∀ name rule, OrderedMap.get? validator.schema name = some (.rule rule) → rule.set = none

/-- The rule for a leaf field has no setter then. -/
theorem SetterFree.ruleFor {validator : Validator} (free : validator.SetterFree) (name : String) :
    (validator.ruleFor name).set = none := by
  unfold Validator.ruleFor
  split
  · next rule entry => exact free name rule entry
  -- The default rule only passes values on.
  · rfl

/-- A validator uses itself and all that are nested in it, at any depth. -/
inductive Uses : Validator → Validator → Prop where
  | itself (validator : Validator) : Uses validator validator
  | nested {validator inner other : Validator} {name : String}
    (entry : OrderedMap.get? validator.schema name = some (.nested inner))
    (rest : Uses inner other) : Uses validator other

/-- What is used below a field is used. -/
theorem Uses.of_scopeFor {validator other : Validator} {name : String}
    (uses : (validator.scopeFor name).Uses other) : validator.Uses other := by
  unfold scopeFor at uses
  split at uses
  · next inner entry => exact .nested entry uses
  -- No other validator takes over, so the one at work is the one below the field.
  · exact uses

/-- No rule that the validator or one nested in it names has a setter. -/
def NoSetters (validator : Validator) : Prop :=
  ∀ other, validator.Uses other → other.SetterFree

namespace NoSetters

variable {validator : Validator}

/-- The rule that a validator finds for a field has no setter if no rule has one. -/
theorem ruleFor (free : validator.NoSetters) (name : String) :
    (validator.ruleFor name).set = none :=
  (free validator (.itself validator)).ruleFor name

/-- The validator that a field is handed to has no setters either. -/
theorem scopeFor (free : validator.NoSetters) (name : String) :
    (validator.scopeFor name).NoSetters :=
  fun other uses => free other uses.of_scopeFor

end NoSetters

/-- What holds of all that is used holds of the validator and of all that each of its entries
uses. -/
theorem forall_uses_iff {validator : Validator} {property : Validator → Prop} :
    (∀ other, validator.Uses other → property other) ↔
      property validator ∧ ∀ name inner,
        OrderedMap.get? validator.schema name = some (.nested inner) →
          ∀ other, inner.Uses other → property other := by
  constructor
  · intro h
    exact ⟨h validator (.itself validator), fun name inner entry other uses =>
      h other (.nested entry uses)⟩
  · rintro ⟨hself, hentries⟩ other uses
    -- A way to a validator that is used is empty or begins with an entry of the schema.
    cases uses with
    | itself => exact hself
    | nested entry rest => exact hentries _ _ entry _ rest

end Validator

end DocShape
