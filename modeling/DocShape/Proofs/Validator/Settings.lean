import DocShape.Proofs.Validator.Runs

/-!
# `DocShape.Proofs.Validator.Settings`: settings take no part in an evaluation

Settings are the limit of a validator and its cache. Two validators are alike if they differ at
most in their settings, and so do those nested in them, at any depth.
`Shape.evaluate_eq_of_alike`: the evaluations by validators that are alike are one and the same
part of a walk. A nested validator is only ever handed a shape, never a text, so neither its cache
nor its limit is looked at.
-/

set_option autoImplicit false

namespace DocShape

mutual

/-- Two entries name the same rule, or validators that are alike. -/
inductive Entry.Alike : Entry → Entry → Prop where
  | rule (rule : Rule) : Entry.Alike (.rule rule) (.rule rule)
  | nested {validator other : Validator} (alike : validator.Alike other) :
      Entry.Alike (.nested validator) (.nested other)

/-- Two schemas name the same fields, with entries that are alike. -/
inductive Schema.Alike : Schema → Schema → Prop where
  | entries {schema other : Schema}
      (alike : ∀ name, Option.Rel Entry.Alike (OrderedMap.get? schema name)
        (OrderedMap.get? other name)) :
      Schema.Alike schema other

/-- Two validators differ at most in their settings and in those of validators inside. -/
inductive Validator.Alike : Validator → Validator → Prop where
  | settings {schema other : Schema} (alike : schema.Alike other) (catalog : Catalog)
      (cache otherCache : Option ShapeCache) (maxDepth otherMaxDepth : Nat) :
      Validator.Alike ⟨schema, catalog, cache, maxDepth⟩
        ⟨other, catalog, otherCache, otherMaxDepth⟩

end

namespace Validator

/-- Validators that are alike have the same catalog. -/
theorem Alike.catalog_eq {validator other : Validator} (alike : validator.Alike other) :
    validator.catalog = other.catalog := by
  cases alike
  rfl

/-- A name resolves to the same thing for both, or to validators that are alike. -/
theorem Alike.resolve {validator other : Validator} (alike : validator.Alike other)
    (name : String) :
    validator.resolve name = other.resolve name ∨
      ∃ inner otherInner, validator.resolve name = .nested inner ∧
        other.resolve name = .nested otherInner ∧ inner.Alike otherInner := by
  obtain @⟨schema, otherSchema, ⟨alike⟩⟩ := alike
  have hentries := alike name
  unfold Validator.resolve Schema.resolve
  -- Both schemas have no entry of this name, or two that are alike.
  generalize OrderedMap.get? schema name = entry at hentries ⊢
  generalize OrderedMap.get? otherSchema name = otherEntry at hentries ⊢
  cases hentries with
  | none => exact .inl rfl
  | some alike =>
    cases alike with
    | rule rule => exact .inl rfl
    | nested alike => exact .inr ⟨_, _, rfl, rfl, alike⟩

end Validator

open Evaluation

/-- A leaf field is put to the same rule by both. -/
theorem Evaluation.leaf_eq_of_alike {scope other : Validator} (alike : scope.Alike other)
    (name : String) (value : Json) (draft : Draft) :
    leaf scope name value draft = leaf other name value draft := by
  unfold leaf
  rcases alike.resolve name with heq | ⟨inner, otherInner, hscope, hother, -⟩
  · rw [heq]
  · -- A validator stands for the default rule there, whichever it is.
    rw [hscope, hother]
    rfl

/-- A structured field goes on to validators that are alike. -/
theorem Evaluation.delegate_bind_eq_of_alike {α : Type} {scope other : Validator}
    (alike : scope.Alike other) (name : String) {next : Validator → Evaluation α}
    (h : ∀ inner otherInner, inner.Alike otherInner → next inner = next otherInner) :
    (delegate scope name >>= next) = (delegate other name >>= next) := by
  unfold delegate
  rcases alike.resolve name with heq | ⟨inner, otherInner, hscope, hother, inside⟩
  · have hstay := h scope other alike
    rw [heq]
    cases other.resolve name with
    | default => simp only [pure_bind, hstay]
    | rule rule => simp only [bind_assoc, pure_bind, hstay]
    | nested inner => rfl
  · -- Both log the same event, and then the validators that the schemas name take over.
    have hinner := h inner otherInner inside
    rw [hscope, hother]
    simp only [bind_assoc, pure_bind, hinner]

mutual

/-- Validators that are alike evaluate alike. -/
theorem Shape.evaluate_eq_of_alike (shape : Shape) {scope other : Validator}
    (alike : scope.Alike other) (value : Json) :
    shape.evaluate scope value = shape.evaluate other value := by
  by_cases hkind : value.kind = shape.kind
  · match shape with
    | .object fields =>
      obtain ⟨members, rfl⟩ := Json.exists_of_kind_object hkind
      simp only [Shape.evaluate]
      rw [Field.evaluateAll_eq_of_alike fields alike members {}]
    | .emptyArray =>
      obtain ⟨items, rfl⟩ := Json.exists_of_kind_array hkind
      cases items <;> rfl
    | .arrayOf element =>
      obtain ⟨items, rfl⟩ := Json.exists_of_kind_array hkind
      -- Arrays stay in the same scope, so all items are evaluated alike.
      have hitem : (fun item => element.evaluate scope item) =
          fun item => element.evaluate other item :=
        funext fun item => element.evaluate_eq_of_alike alike item
      cases items with
      | nil => rfl
      | cons item rest =>
        simp only [Shape.evaluate]
        rw [hitem]
  · rw [Shape.evaluate_of_kind_ne hkind, Shape.evaluate_of_kind_ne hkind, alike.catalog_eq]

/-- Validators that are alike evaluate a field alike. -/
theorem Field.evaluate_eq_of_alike (field : Field) {scope other : Validator}
    (alike : scope.Alike other) (members : Members) (draft : Draft) :
    field.evaluate scope members draft = field.evaluate other members draft := by
  match field with
  | .leaf name =>
    rw [Field.evaluate_leaf, Field.evaluate_leaf, alike.catalog_eq]
    simp only [leaf_eq_of_alike alike]
  | .nested name shape =>
    rw [Field.evaluate_nested, Field.evaluate_nested, alike.catalog_eq]
    cases Members.present? name members with
    | none => rfl
    | some value =>
      refine congrArg (inside (.field name)) (delegate_bind_eq_of_alike alike name ?_)
      intro inner otherInner alike
      rw [shape.evaluate_eq_of_alike alike value]

/-- Validators that are alike evaluate fields in order alike. -/
theorem Field.evaluateAll_eq_of_alike (fields : List Field) {scope other : Validator}
    (alike : scope.Alike other) (members : Members) (draft : Draft) :
    Field.evaluateAll scope members draft fields =
      Field.evaluateAll other members draft fields := by
  match fields with
  | [] => rfl
  | field :: rest =>
    simp only [Field.evaluateAll]
    rw [field.evaluate_eq_of_alike alike members draft]
    congr 1
    funext middle
    exact Field.evaluateAll_eq_of_alike rest alike members middle

end

end DocShape
