import DocShape.Proofs.Json.Pointer
import DocShape.Proofs.Shape.Names
import DocShape.Proofs.Validator.Drafts

/-!
# `DocShape.Proofs.Validator.Positions`: positions in a document and their outcomes

A position is a value of a document, the shape it is put to and the validator in charge of it.
`Position.child?` goes one step inside: to the value of a field that the shape gives a shape, or
to an item. `Position.at?` follows a path.

`Position.Inside.exists_part` is one step: the outcome of a position holds those of its children,
each where its own step leads. `Position.exists_part` follows a path through the two trees at the
same pace, and so finds the outcome of every position at the pointer of its path.
-/

set_option autoImplicit false

namespace DocShape

/-- The step of a pointer that leads where a step of a path leads. -/
def PathStep.token : PathStep → String
  | field name => name
  | index position => toString position

/-- The pointer that leads where a path leads. -/
def FieldPath.pointer (path : FieldPath) : Pointer :=
  path.map PathStep.token

/-- A value, its shape and the validator in charge. -/
structure Position where
  scope : Validator
  shape : Shape
  value : Json

namespace Position

/-- The position one step inside, if the value is the container that the shape asks for and holds
something there. -/
def child? (position : Position) (step : PathStep) : Option Position :=
  match step, position.value with
  | .field name, .object members => do
    let shape ← (position.shape.field? name).bind Field.shape?
    let value ← Members.present? name members
    return ⟨position.scope.scopeFor name, shape, value⟩
  | .index index, .array items => do
    let shape ← position.shape.element?
    let value ← items[index]?
    return ⟨position.scope, shape, value⟩
  | _, _ => none

/-- The position at the end of a path. -/
def at? (position : Position) : FieldPath → Option Position
  | [] => some position
  | step :: rest => (position.child? step).bind fun child => child.at? rest

/-- The outcomes that an evaluation of the position can give. -/
def Gives (position : Position) (outcome : Outcome) : Prop :=
  Evaluation.Gives (position.shape.evaluate position.scope position.value) outcome

/-- One step inside leads to the value of a structured field, or to an item. -/
inductive Inside : PathStep → Position → Position → Prop where
  | field {scope : Validator} {fields : List Field} {members : Members} {name : String}
      {shape : Shape} {value : Json} (declared : Field.nested name shape ∈ fields)
      (present : Members.present? name members = some value) :
      Inside (.field name) ⟨scope, .object fields, .object members⟩
        ⟨scope.scopeFor name, shape, value⟩
  | index {scope : Validator} {shape : Shape} {items : List Json} {index : Nat} {value : Json}
      (item : items[index]? = some value) :
      Inside (.index index) ⟨scope, .arrayOf shape, .array items⟩ ⟨scope, shape, value⟩

/-- What is found one step inside is one of the two kinds of children. -/
theorem Inside.of_child? {position child : Position} {step : PathStep}
    (h : position.child? step = some child) : Inside step position child := by
  obtain ⟨scope, shape, value⟩ := position
  -- A name leads into an object and a position into an array. All other steps find nothing.
  cases step with
  | field name =>
    cases value with
    | object members =>
      simp only [child?, Option.bind_eq_bind, Option.bind_eq_some_iff] at h
      obtain ⟨inner, ⟨field, hfield, hinner⟩, found, hfound, hchild⟩ := h
      cases hchild
      cases shape with
      | object fields =>
        -- The first field of the name has a shape, so it is the declared one.
        have hname : field.name = name := by simpa using List.find?_some hfield
        have hmem : field ∈ fields := List.mem_of_find?_eq_some hfield
        cases field with
        | leaf other => cases hinner
        | nested other shape =>
          cases hinner
          cases hname
          exact .field hmem hfound
      | emptyArray => cases hfield
      | arrayOf element => cases hfield
    | _ => cases h
  | index index =>
    cases value with
    | array items =>
      simp only [child?, Option.bind_eq_bind, Option.bind_eq_some_iff] at h
      obtain ⟨inner, hinner, found, hfound, hchild⟩ := h
      cases hchild
      cases shape with
      | arrayOf element =>
        cases hinner
        exact .index hfound
      | object fields => cases hinner
      | emptyArray => cases hinner
    | _ => cases h

/-- What is one step inside is found there, if no field hides it. -/
theorem Inside.child?_eq {position child : Position} {step : PathStep}
    (inside : Inside step position child) (distinct : position.shape.DistinctNames) :
    position.child? step = some child := by
  cases inside with
  | @field scope fields members name shape value declared present =>
    have hfield : (Shape.object fields).field? name = some (.nested name shape) :=
      Shape.field?_of_mem distinct.1 declared
    simp [child?, hfield, present, Field.shape?]
  | @index scope shape items index value item =>
    simp [child?, item, Shape.element?]

/-- Distinct names stay so one step inside. -/
theorem Inside.distinctNames {position child : Position} {step : PathStep}
    (inside : Inside step position child) (distinct : position.shape.DistinctNames) :
    child.shape.DistinctNames := by
  cases inside with
  | field declared _ => exact Field.eachInside_iff.mp distinct.2 _ _ declared
  | index _ => exact distinct

/-- What is used one step inside is used. -/
theorem Inside.uses {position child : Position} {step : PathStep} {other : Validator}
    (inside : Inside step position child) (uses : child.scope.Uses other) :
    position.scope.Uses other := by
  cases inside with
  | field _ _ => exact uses.of_scopeFor
  | index _ => exact uses

/-- Steps inside lead along a path from one position to another. Where names repeat, one path can
lead to several positions. -/
inductive LeadsTo : Position → FieldPath → Position → Prop where
  | here (position : Position) : LeadsTo position [] position
  | inside {step : PathStep} {position child last : Position} {path : FieldPath}
    (inside : Inside step position child) (leads : LeadsTo child path last) :
    LeadsTo position (step :: path) last

/-- Where no names repeat, a path leads to the position that is found at its end. -/
theorem LeadsTo.at?_eq {position last : Position} {path : FieldPath}
    (leads : LeadsTo position path last) (distinct : position.shape.DistinctNames) :
    position.at? path = some last := by
  induction leads with
  | here => rfl
  | @inside step position child last path inside _ ih =>
    show (position.child? step).bind (fun child => child.at? path) = some last
    rw [inside.child?_eq distinct]
    exact ih (inside.distinctNames distinct)

/-- What every step inside keeps holds at the end of a path. -/
theorem holds_of_at? {property : Position → Prop}
    (keep : ∀ {step : PathStep} {position child : Position},
      Inside step position child → property position → property child)
    {position last : Position} {path : FieldPath} (hpath : position.at? path = some last)
    (holds : property position) : property last := by
  induction path generalizing position with
  | nil =>
    cases hpath
    exact holds
  | cons step rest ih =>
    obtain ⟨child, hchild, hrest⟩ := Option.bind_eq_some_iff.mp hpath
    exact ih hrest (keep (Inside.of_child? hchild) holds)

end Position

/-! ### Fields next to each other -/

namespace Field

open Evaluation

variable {scope : Validator} {members : Members} {draft result : Draft} {name : String}

/-- A field changes the draft under its own name only. -/
theorem keeps_of_gives {field : Field} (hname : field.name ≠ name)
    (h : Gives (field.evaluate scope members draft) result) :
    Draft.Keeps scope.SetterFree name draft result := by
  cases hpresent : Members.present? field.name members with
  | none =>
    obtain ⟨message, rfl⟩ := gives_of_absent hpresent h
    exact Draft.keeps_fail hname _ message
  | some value =>
    cases field with
    | leaf other =>
      rw [gives_leaf hpresent h]
      exact Draft.keeps_judge hname (fun free => free.ruleFor other) value
    | nested other shape =>
      obtain ⟨outcome, -, rfl⟩ := gives_nested hpresent h
      exact Draft.keeps_splice hname _ outcome

/-- Fields with other names leave a name alone. -/
theorem keeps_of_gives_all {fields : List Field} (hname : name ∉ fields.map Field.name)
    (h : Gives (evaluateAll scope members draft fields) result) :
    Draft.Keeps scope.SetterFree name draft result := by
  induction fields generalizing draft with
  | nil =>
    rw [gives_nil h]
    exact .refl draft _ name
  | cons field rest ih =>
    rw [List.map_cons, List.mem_cons, not_or] at hname
    obtain ⟨middle, hfield, hrest⟩ := gives_cons h
    exact (keeps_of_gives (Ne.symm hname.1) hfield).trans (ih hname.2 hrest)

/-- Each field has its turn. What the draft holds under its name is not touched before and after,
if no other field has that name. -/
theorem exists_turn_of_gives_all {fields : List Field} {field : Field}
    (nodup : (fields.map Field.name).Nodup) (declared : field ∈ fields)
    (h : Gives (evaluateAll scope members draft fields) result) :
    ∃ before after, Gives (field.evaluate scope members before) after ∧
      Draft.Keeps scope.SetterFree field.name draft before ∧
      Draft.Keeps scope.SetterFree field.name after result := by
  induction fields generalizing draft with
  | nil => cases declared
  | cons first rest ih =>
    obtain ⟨middle, hfirst, hrest⟩ := gives_cons h
    obtain ⟨hfresh, nodup⟩ := List.nodup_cons.mp nodup
    rcases List.mem_cons.mp declared with rfl | declared
    · -- The field itself writes, and the fields behind it have other names.
      exact ⟨draft, middle, hfirst, .refl draft _ _, keeps_of_gives_all hfresh hrest⟩
    · -- Another field writes under its own name, and the declared one comes later.
      have hname : first.name ≠ field.name := fun heq =>
        hfresh (heq ▸ List.mem_map_of_mem declared)
      obtain ⟨before, after, hfield, hbefore, hafter⟩ := ih nodup declared hrest
      exact ⟨before, after, hfield, (keeps_of_gives hname hfirst).trans hbefore, hafter⟩

/-- After all fields, the trees of a structured field stand under its name, if no other field has
that name. -/
theorem exists_part_of_gives_all {fields : List Field} {shape : Shape} {value : Json}
    (nodup : (fields.map Field.name).Nodup) (declared : nested name shape ∈ fields)
    (present : Members.present? name members = some value)
    (h : Gives (evaluateAll scope members draft fields) result) :
    ∃ part, Gives (shape.evaluate (scope.scopeFor name) value) part ∧
      Members.get? name result.errors = part.errors.or (Members.get? name draft.errors) ∧
      (scope.SetterFree →
        Members.get? name result.valid = part.valid.or (Members.get? name draft.valid)) := by
  obtain ⟨before, after, hfield, hbefore, hafter⟩ := exists_turn_of_gives_all nodup declared h
  rw [name_nested] at hbefore hafter
  obtain ⟨part, hpart, rfl⟩ := gives_nested present hfield
  refine ⟨part, hpart, ?_, fun free => ?_⟩
  · rw [hafter.errors, Draft.get?_errors_splice, hbefore.errors]
  · rw [hafter.valid free, Draft.get?_valid_splice, hbefore.valid free]

end Field

/-! ### The trees of an outcome -/

namespace Json

/-- Nothing is found inside null. -/
theorem nonNull_at?_of_nonNull (tree : Option Json) (pointer : Pointer) :
    (tree.bind fun value => value.at? pointer).bind nonNull? =
      ((tree.bind nonNull?).bind fun value => value.at? pointer).bind nonNull? := by
  cases tree with
  | none => rfl
  | some value => cases value <;> cases pointer <;> rfl

end Json

namespace Outcome

/-- What a part leaves in the tree of what passed, where a last step leads to it. An item has its
slot in any case, with null if nothing of it passed. -/
def slot (part : Outcome) : Option PathStep → Option Json
  | some (.index _) => some part.validTree
  | _ => part.valid

/-- The trees of an outcome hold those of a part one step inside. -/
structure Holds (free : Prop) (outcome : Outcome) (step : PathStep) (part : Outcome) : Prop where
  errors : (outcome.errors.bind (·.child? step.token)).bind Json.nonNull? = part.errors
  valid : free → outcome.valid.bind (·.child? step.token) = part.slot (some step)

/-- A tree is looked into at a slot as at the part that left it. -/
theorem slot_bind_at? (part : Outcome) (last : Option PathStep) (step : String) (rest : Pointer) :
    ((part.slot last).bind fun value => value.at? (step :: rest)) =
      part.valid.bind fun value => value.at? (step :: rest) := by
  unfold slot validTree
  split
  · cases part.valid <;> rfl
  · rfl

/-- In the tree of what passed, the slot of an item holds what passed of it. -/
theorem valid_child?_ofItems (outcomes : List Outcome) (index : Nat) :
    ((ofItems outcomes).valid.bind fun tree => tree.child? (toString index)) =
      outcomes[index]?.map validTree := by
  show (Pointer.position? (toString index)).bind (fun position =>
    (outcomes.map fun item => item.valid.getD .null)[position]?) = _
  rw [Pointer.position?_toString]
  show (outcomes.map fun item => item.valid.getD .null)[index]? = _
  rw [List.getElem?_map]
  rfl

/-- In the tree of errors, the slot of an item holds its errors. -/
theorem errors_child?_ofItems {outcomes : List Outcome} {index : Nat} {part : Outcome}
    (h : outcomes[index]? = some part) :
    ((ofItems outcomes).errors.bind fun tree => tree.child? (toString index)).bind Json.nonNull? =
      part.errors.bind Json.nonNull? := by
  unfold ofItems
  by_cases hany : (outcomes.any fun item => item.errors.isSome) = true
  · rw [if_pos hany]
    show ((Pointer.position? (toString index)).bind (fun position =>
      (outcomes.map fun item => item.errors.getD .null)[position]?)).bind Json.nonNull? = _
    rw [Pointer.position?_toString]
    show ((outcomes.map fun item => item.errors.getD .null)[index]?).bind Json.nonNull? = _
    rw [List.getElem?_map, h]
    show some (part.errors.getD .null) >>= Json.nonNull? = _
    cases part.errors <;> rfl
  · -- Without any error there is no tree, and no part has one.
    rw [if_neg hany]
    have hpart : part.errors.isSome = false := by
      rw [Bool.not_eq_true, List.any_eq_false] at hany
      simpa using hany part (List.mem_of_getElem? h)
    rw [Option.isSome_eq_false_iff, Option.isNone_iff_eq_none] at hpart
    rw [hpart]
    rfl

end Outcome

namespace Draft

/-- In the tree of errors of an object, the errors of a field stand under its name. -/
theorem errors_child?_outcome (draft : Draft) (name : String) :
    (draft.outcome.errors.bind fun tree => tree.child? name) =
      Members.get? name draft.errors := by
  unfold outcome Outcome.ofMembers
  cases draft.errors <;> rfl

end Draft

/-- The tree of errors is never null. -/
theorem Shape.nonNull_errors_of_gives {shape : Shape} {scope : Validator} {value : Json}
    {outcome : Outcome} (h : Evaluation.Gives (shape.evaluate scope value) outcome) :
    outcome.errors.bind Json.nonNull? = outcome.errors := by
  by_cases hkind : value.kind = shape.kind
  · cases shape with
    | object fields =>
      obtain ⟨members, rfl⟩ := Json.exists_of_kind_object hkind
      obtain ⟨draft, -, rfl⟩ := Shape.gives_object h
      unfold Draft.outcome Outcome.ofMembers
      cases draft.errors <;> rfl
    | emptyArray =>
      obtain ⟨items, rfl⟩ := Json.exists_of_kind_array hkind
      obtain ⟨-, rfl⟩ := Shape.gives_emptyArray h
      rfl
    | arrayOf element =>
      obtain ⟨items, rfl⟩ := Json.exists_of_kind_array hkind
      obtain ⟨outcomes, -, rfl⟩ := Shape.gives_arrayOf h
      unfold Outcome.ofItems
      split <;> rfl
  · obtain ⟨message, rfl⟩ := Shape.gives_of_kind_ne hkind h
    rfl

/-- Where there is an item there is what came of it. -/
theorem exists_getElem?_of_forall₂ {α β : Type} {gives : α → β → Prop} {items : List α}
    {outcomes : List β} (h : List.Forall₂ gives items outcomes) {index : Nat} {item : α}
    (hitem : items[index]? = some item) :
    ∃ outcome, outcomes[index]? = some outcome ∧ gives item outcome := by
  induction h generalizing index with
  | nil => cases hitem
  | cons hhead _ ih =>
    cases index with
    | zero =>
      cases hitem
      exact ⟨_, rfl, hhead⟩
    | succ index => exact ih hitem

namespace Position

/-- The outcome of a position holds an outcome of the position one step inside. -/
theorem Inside.exists_part {position child : Position} {step : PathStep} {outcome : Outcome}
    (inside : Inside step position child) (distinct : position.shape.DistinctNames)
    (h : position.Gives outcome) :
    ∃ part, child.Gives part ∧ outcome.Holds position.scope.SetterFree step part := by
  cases inside with
  | @field scope fields members name shape value declared present =>
    obtain ⟨draft, hfields, rfl⟩ := Shape.gives_object h
    obtain ⟨part, hpart, herrors, hvalid⟩ :=
      Field.exists_part_of_gives_all distinct.1 declared present hfields
    rw [Members.get?_nil, Option.or_none] at herrors hvalid
    refine ⟨part, hpart, ?_, hvalid⟩
    show (draft.outcome.errors.bind fun tree => tree.child? name).bind Json.nonNull? = part.errors
    rw [Draft.errors_child?_outcome, herrors]
    exact Shape.nonNull_errors_of_gives hpart
  | index item =>
    -- No setter writes into an array, so its slots hold what passed in any case.
    obtain ⟨outcomes, hitems, rfl⟩ := Shape.gives_arrayOf h
    obtain ⟨part, hindex, hpart⟩ := exists_getElem?_of_forall₂ hitems item
    refine ⟨part, hpart, ?_, fun _ => ?_⟩
    · exact (Outcome.errors_child?_ofItems hindex).trans (Shape.nonNull_errors_of_gives hpart)
    · refine (Outcome.valid_child?_ofItems outcomes _).trans ?_
      rw [hindex]
      rfl

/-- The trees of an outcome hold those of every position inside, at the pointer of its path. -/
theorem exists_part {position last : Position} {path : FieldPath} {outcome : Outcome}
    (hpath : position.at? path = some last) (distinct : position.shape.DistinctNames)
    (h : position.Gives outcome) :
    ∃ part, last.Gives part ∧
      (outcome.errors.bind fun tree => tree.at? path.pointer).bind Json.nonNull? = part.errors ∧
      ((∀ other, position.scope.Uses other → other.SetterFree) →
        (outcome.valid.bind fun tree => tree.at? path.pointer) = part.slot path.getLast?) := by
  induction path generalizing position outcome with
  | nil =>
    cases hpath
    refine ⟨outcome, h, ?_, fun _ => ?_⟩
    · show (outcome.errors.bind some).bind Json.nonNull? = outcome.errors
      rw [Option.bind_fun_some]
      exact Shape.nonNull_errors_of_gives h
    · exact Option.bind_fun_some outcome.valid
  | cons step rest ih =>
    obtain ⟨child, hchild, hrest⟩ := Option.bind_eq_some_iff.mp hpath
    have inside := Inside.of_child? hchild
    obtain ⟨middle, hmiddle, holds⟩ := inside.exists_part distinct h
    obtain ⟨part, hpart, herrors, hvalid⟩ := ih hrest (inside.distinctNames distinct) hmiddle
    refine ⟨part, hpart, ?_, fun free => ?_⟩
    · show (outcome.errors.bind fun tree => (tree.child? step.token).bind fun inner =>
        inner.at? (FieldPath.pointer rest)).bind Json.nonNull? = part.errors
      rw [← Option.bind_assoc, Json.nonNull_at?_of_nonNull, holds.errors, herrors]
    · -- The child needs no setter-free validators but those that the position uses too.
      have hslot := holds.valid (free position.scope (.itself position.scope))
      have hinner := hvalid fun other uses => free other (inside.uses uses)
      show (outcome.valid.bind fun tree => (tree.child? step.token).bind fun inner =>
        inner.at? (FieldPath.pointer rest)) = part.slot (step :: rest).getLast?
      rw [← Option.bind_assoc, hslot]
      cases rest with
      | nil =>
        -- At the last step the slot itself is what is read.
        have hsame : middle.valid = part.valid := (Option.bind_fun_some _).symm.trans hinner
        show (middle.slot (some step)).bind some = part.slot (some step)
        rw [Option.bind_fun_some]
        unfold Outcome.slot Outcome.validTree
        rw [hsame]
      | cons next others =>
        -- Further inside, a slot with null and no tree at all are the same.
        rw [List.getLast?_cons_cons, ← hinner]
        exact middle.slot_bind_at? (some step) next.token (FieldPath.pointer others)

end Position

end DocShape
