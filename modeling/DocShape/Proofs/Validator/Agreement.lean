import DocShape.Proofs.Validator.Answers

/-!
# `DocShape.Proofs.Validator.Agreement`: what a validation looks at

`Shape.Agree` says when two values look the same to a shape. Keys that the shape does not declare
do not count, null counts as missing, and a value that is no container of the right kind is like
any other. `Shape.evaluate_eq_of_agree`: the evaluations of such values are one and the same part
of a walk, for every validator. So nothing outside the shape gets into the trees, the errors, the
messages asked for, the values that setters see or the log.
-/

set_option autoImplicit false

namespace DocShape

mutual

/-- Two values agree on a shape. -/
def Shape.Agree (value other : Json) : Shape → Prop
  | .object fields =>
    (value.kind ≠ .object ∧ other.kind ≠ .object) ∨
      ∃ members others, value = .object members ∧ other = .object others ∧
        Field.AllAgree members others fields
  | .emptyArray =>
    (value.kind ≠ .array ∧ other.kind ≠ .array) ∨
      ∃ items others, value = .array items ∧ other = .array others ∧
        items.length = others.length
  | .arrayOf element =>
    (value.kind ≠ .array ∧ other.kind ≠ .array) ∨
      ∃ items others, value = .array items ∧ other = .array others ∧
        List.Forall₂ (fun item other => element.Agree item other) items others

/-- Two objects agree on a field. Its value is missing or null in both, or it is there in both and
is the same value for a leaf field, or agrees on the shape of the field. -/
def Field.Agree (members others : Members) : Field → Prop
  | .leaf name => Members.present? name members = Members.present? name others
  | .nested name shape =>
    (Members.present? name members = none ∧ Members.present? name others = none) ∨
      ∃ value other, Members.present? name members = some value ∧
        Members.present? name others = some other ∧ shape.Agree value other

/-- Two objects agree on all fields. -/
def Field.AllAgree (members others : Members) : List Field → Prop
  | [] => True
  | field :: rest => field.Agree members others ∧ Field.AllAgree members others rest

end

open Evaluation

/-- Items that are evaluated alike one by one are evaluated alike in a row. -/
theorem Evaluation.eachItem_eq_of_forall₂ {act : Json → Evaluation Outcome}
    {items others : List Json}
    (h : List.Forall₂ (fun item other => act item = act other) items others) (position : Nat) :
    eachItem act position items = eachItem act position others := by
  induction h generalizing position with
  | nil => rfl
  | cons hitem _ ih =>
    simp only [eachItem]
    rw [hitem, ih]

mutual

/-- Values that agree on a shape are evaluated alike. -/
theorem Shape.evaluate_eq_of_agree (shape : Shape) (scope : Validator) {value other : Json}
    (agree : shape.Agree value other) :
    shape.evaluate scope value = shape.evaluate scope other := by
  -- Along the shape. At every container both values are of the wrong kind, or both are not and
  -- agree on what is inside.
  match shape with
  | .object fields =>
    rcases agree with ⟨hvalue, hother⟩ | ⟨members, others, rfl, rfl, hfields⟩
    · rw [Shape.evaluate_of_kind_ne hvalue, Shape.evaluate_of_kind_ne hother]
    · simp only [Shape.evaluate]
      rw [Field.evaluateAll_eq_of_agree fields scope {} hfields]
  | .emptyArray =>
    rcases agree with ⟨hvalue, hother⟩ | ⟨items, others, rfl, rfl, hlength⟩
    · rw [Shape.evaluate_of_kind_ne hvalue, Shape.evaluate_of_kind_ne hother]
    · -- Of items that the shape says nothing about only the number gets out, in the error.
      cases items with
      | nil =>
        have hnil : others = [] := List.eq_nil_of_length_eq_zero hlength.symm
        rw [hnil]
      | cons item rest =>
        obtain ⟨other, others, rfl⟩ := List.exists_cons_of_length_eq_add_one hlength.symm
        simp only [Shape.evaluate, hlength]
  | .arrayOf element =>
    rcases agree with ⟨hvalue, hother⟩ | ⟨items, others, rfl, rfl, hitems⟩
    · rw [Shape.evaluate_of_kind_ne hvalue, Shape.evaluate_of_kind_ne hother]
    · have heach := eachItem_eq_of_forall₂
        (hitems.imp fun item other => element.evaluate_eq_of_agree scope) 0
      have hlength := hitems.length_eq
      cases hitems with
      | nil => rfl
      | cons _ _ =>
        simp only [Shape.evaluate]
        rw [heach, hlength]

/-- Objects that agree on a field are evaluated alike for it. -/
theorem Field.evaluate_eq_of_agree (field : Field) (scope : Validator) (draft : Draft)
    {members others : Members} (agree : field.Agree members others) :
    field.evaluate scope members draft = field.evaluate scope others draft := by
  match field with
  | .leaf name =>
    have hpresent : Members.present? name members = Members.present? name others := agree
    rw [Field.evaluate_leaf, Field.evaluate_leaf, hpresent]
  | .nested name shape =>
    rw [Field.evaluate_nested, Field.evaluate_nested]
    rcases agree with ⟨hmembers, hothers⟩ | ⟨value, other, hmembers, hothers, hshape⟩
    · rw [hmembers, hothers]
    · have hvalue (inner : Validator) : shape.evaluate inner value = shape.evaluate inner other :=
        shape.evaluate_eq_of_agree inner hshape
      rw [hmembers, hothers]
      simp only [hvalue]

/-- Members that agree on the fields are evaluated alike, field by field. -/
theorem Field.evaluateAll_eq_of_agree (fields : List Field) (scope : Validator) (draft : Draft)
    {members others : Members} (agree : Field.AllAgree members others fields) :
    Field.evaluateAll scope members draft fields =
      Field.evaluateAll scope others draft fields := by
  match fields with
  | [] => rfl
  | field :: rest =>
    simp only [Field.evaluateAll]
    rw [field.evaluate_eq_of_agree scope draft agree.1]
    congr 1
    funext middle
    exact Field.evaluateAll_eq_of_agree rest scope middle agree.2

end

namespace Validator

/-- Documents that agree on a shape are validated alike: with the same answer, with the same
messages asked for in the same order, and with the same log. -/
theorem run_eq_of_agree (validator : Validator) {shape : Shape} {document other : Json}
    (agree : shape.Agree document other) (store : Store) :
    (validator.validateShape shape document).run store =
      (validator.validateShape shape other).run store := by
  unfold validateShape
  rw [shape.evaluate_eq_of_agree validator agree]

/-- Documents that differ in keys that the shape does not declare, in null against missing and
inside a value of the wrong kind. -/
theorem run_eq_of_undeclared_keys :
    let validator : Validator :=
      { (default : Validator) with catalog := .numbered (Catalog.counting "missing ") 0 }
    let shape : Shape :=
      .object [.leaf "note", .nested "pets" (.arrayOf (.object [.leaf "name"]))]
    let document : Json := .object [("age", .nat 3), ("pets", .array [
      .object [("fur", .bool true), ("name", .string "lace")], .string "roojoo"])]
    let other : Json := .object [("note", .null), ("pets", .array [
      .object [("name", .string "lace")], .array [.nat 1, .nat 2]])]
    let outcome : Outcome :=
      ⟨some (.object [("pets", .array [.object [("name", .string "lace")], .null])]),
        some (.object [("note", .string "missing 0"),
          ("pets", .array [.null, .string "missing 1"])])⟩
    shape.Agree document other ∧
      (validator.validateShape shape document).run {} =
        (validator.validateShape shape other).run {} ∧
      (validator.validateShape shape document).answer {} = .ok outcome := by
  intro validator shape document other outcome
  -- The first pets agree since the fur is not declared, the second ones since neither is an
  -- object.
  have hfirst : (Shape.object [.leaf "name"]).Agree
      (.object [("fur", .bool true), ("name", .string "lace")])
      (.object [("name", .string "lace")]) :=
    .inr ⟨_, _, rfl, rfl, rfl, trivial⟩
  have hsecond : (Shape.object [.leaf "name"]).Agree
      (.string "roojoo") (.array [.nat 1, .nat 2]) :=
    .inl ⟨by decide, by decide⟩
  have agree : shape.Agree document other := by
    refine .inr ⟨_, _, rfl, rfl, rfl, ?_, trivial⟩
    refine .inr ⟨_, _, rfl, rfl, .inr ⟨_, _, rfl, rfl, ?_⟩⟩
    exact .cons hfirst (.cons hsecond .nil)
  exact ⟨agree, validator.run_eq_of_agree agree {}, by decide +kernel⟩

end Validator

end DocShape
