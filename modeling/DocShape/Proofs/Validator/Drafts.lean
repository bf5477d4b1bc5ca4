import DocShape.Proofs.Validator.Runs

/-!
# `DocShape.Proofs.Validator.Drafts`: how the two trees of an object grow

A draft changes under the name of one field at a time: a failure writes into the errors, a rule
into what passed, and a structured field into either. The lemmas say for each change whether the
errors are still empty and what stands under a name. A setter may change what passed under any
name, so the lemmas about that tree ask for a rule without one.
-/

set_option autoImplicit false

namespace DocShape

namespace Members

/-- Something that was set is there. -/
theorem isEmpty_insert (key : String) (value : Json) (members : Members) :
    (insert key value members).isEmpty = false := by
  cases members with
  | nil => rfl
  | cons entry rest =>
    obtain ⟨k, v⟩ := entry
    unfold insert
    split
    · rfl
    · split <;> rfl

end Members

namespace Draft

variable (draft : Draft)

/-! ### Whether anything failed -/

/-- After a failure there are errors. -/
@[simp] theorem isEmpty_errors_fail (name message : String) :
    (draft.fail name message).errors.isEmpty = false :=
  Members.isEmpty_insert ..

/-- A value that passes adds no error. -/
@[simp] theorem errors_assign (rule : Rule) (field : FieldContext) :
    (draft.assign rule field).errors = draft.errors :=
  rfl

/-- A leaf field adds no error exactly if its rule has no message. -/
@[simp] theorem isEmpty_errors_judge (rule : Rule) (field : FieldContext) :
    (draft.judge rule field).errors.isEmpty =
      (draft.errors.isEmpty && (rule.check field.value).isNone) := by
  unfold judge
  -- Only a message writes into the errors, a setter does not.
  cases rule.check field.value with
  | none => simp
  | some message => simp

/-- A structured field adds no error exactly if its value is valid. -/
@[simp] theorem isEmpty_errors_splice (name : String) (outcome : Outcome) :
    (draft.splice name outcome).errors.isEmpty = (draft.errors.isEmpty && outcome.isValid) := by
  unfold splice Outcome.isValid
  cases outcome.errors with
  | none => simp
  | some tree => simp [Members.isEmpty_insert]

/-- An object is valid if none of its fields failed. -/
@[simp] theorem isValid_outcome : draft.outcome.isValid = draft.errors.isEmpty := by
  unfold Draft.outcome Outcome.ofMembers Outcome.isValid
  cases draft.errors.isEmpty <;> rfl

/-! ### What stands under a name -/

/-- What a draft holds under a name is what it held before. What passed is only spoken of when no
setter could have written it. -/
structure Keeps (free : Prop) (name : String) (before after : Draft) : Prop where
  errors : Members.get? name after.errors = Members.get? name before.errors
  valid : free → Members.get? name after.valid = Members.get? name before.valid

/-- A draft that stays keeps all. -/
theorem Keeps.refl (free : Prop) (name : String) : Keeps free name draft draft :=
  ⟨rfl, fun _ => rfl⟩

variable {draft}

/-- Two changes in a row keep what both keep. -/
theorem Keeps.trans {free : Prop} {name : String} {middle after : Draft}
    (first : Keeps free name draft middle) (second : Keeps free name middle after) :
    Keeps free name draft after :=
  ⟨second.errors.trans first.errors, fun h => (second.valid h).trans (first.valid h)⟩

variable {name other : String} (hname : other ≠ name)
include hname

/-- A failure under another name keeps what is there. -/
theorem keeps_fail (free : Prop) (message : String) :
    Keeps free name draft (draft.fail other message) :=
  ⟨Members.get?_insert_of_ne hname .., fun _ => rfl⟩

/-- A leaf under another name keeps what is there, up to what its setter writes. -/
theorem keeps_judge {free : Prop} {rule : Rule} (hset : free → rule.set = none) (value : Json) :
    Keeps free name draft (draft.judge rule ⟨other, value⟩) := by
  unfold judge
  cases rule.check value with
  | some message => exact keeps_fail hname free message
  | none =>
    -- The only change that a setter could make to another name.
    refine ⟨rfl, fun h => ?_⟩
    show Members.get? name (rule.assign ⟨other, value⟩ draft.valid) = _
    unfold Rule.assign
    rw [hset h]
    exact Members.get?_insert_of_ne hname ..

/-- An outcome under another name keeps what is there. -/
theorem keeps_splice (free : Prop) (outcome : Outcome) :
    Keeps free name draft (draft.splice other outcome) := by
  unfold splice
  -- Each of the two trees is written at this one name, or not at all.
  refine ⟨?_, fun _ => ?_⟩
  · cases outcome.errors with
    | none => rfl
    | some tree => exact Members.get?_insert_of_ne hname ..
  · cases outcome.valid with
    | none => rfl
    | some tree => exact Members.get?_insert_of_ne hname ..

omit hname

/-- The trees of a structured field stand under its name. -/
theorem get?_errors_splice (outcome : Outcome) :
    Members.get? name (draft.splice name outcome).errors =
      outcome.errors.or (Members.get? name draft.errors) := by
  unfold splice
  cases outcome.errors with
  | none => rfl
  | some tree => exact Members.get?_insert_self ..

/-- Under the name of the field comes what passed of it, or what was there before. -/
theorem get?_valid_splice (outcome : Outcome) :
    Members.get? name (draft.splice name outcome).valid =
      outcome.valid.or (Members.get? name draft.valid) := by
  unfold splice
  cases outcome.valid with
  | none => rfl
  | some tree => exact Members.get?_insert_self ..

end Draft

/-- An array is valid if all of its items are. -/
theorem Outcome.isValid_ofItems (outcomes : List Outcome) :
    (Outcome.ofItems outcomes).isValid = outcomes.all Outcome.isValid := by
  have hany : outcomes.all Outcome.isValid = !outcomes.any fun item => item.errors.isSome := by
    simp [Outcome.isValid, List.all_eq_not_any_not]
  rw [hany]
  unfold Outcome.ofItems
  cases outcomes.any fun item => item.errors.isSome <;> rfl

end DocShape
