import DocShape.Proofs.Json.Members
import DocShape.Proofs.Validator.Conformance
import DocShape.Proofs.Validator.Outlines

/-!
# `DocShape.Proofs.Validator.Pruning`: what passed is the document, pruned

Without setters nothing is made up: the tree of what passed is the document with some members
taken out and null in the place of some items. `Shape.pruned` says which. It goes through the
members of the document instead of the fields, and keeps no draft. `Shape.valid_of_gives`: the
tree of what passed is the pruned document, whatever the order of the fields is.

`Shape.restrict` only takes out what is not declared and knows no rules. A document that conforms
is pruned to that (`Shape.pruned_of_conforms`).
-/

set_option autoImplicit false

namespace DocShape

mutual

/-- What is left of a value that is pruned to what passes, if it is the right container. -/
def Shape.pruned (scope : Validator) (value : Json) : Shape → Option Json
  | .object fields =>
    match value with
    | .object members =>
      some (.object
        (Members.filterMap (fun key item => Field.prunedAt scope key item fields) members))
    | _ => none
  | .emptyArray =>
    match value with
    | .array _ => some (.array [])
    | _ => none
  | .arrayOf element =>
    match value with
    | .array items =>
      some (.array (items.map fun item => (element.pruned scope item).getD .null))
    | _ => none

/-- What is left of the value of a field. A leaf stays as it is or not at all. -/
def Field.pruned (scope : Validator) (item : Json) : Field → Option Json
  | .leaf name => item.nonNull?.filter fun value => ((scope.ruleFor name).check value).isNone
  | .nested name shape => shape.pruned (scope.scopeFor name) item

/-- What is left of the value of a key, which is nothing if no field has that name. -/
def Field.prunedAt (scope : Validator) (key : String) (item : Json) : List Field → Option Json
  | [] => none
  | field :: rest =>
    if field.name = key then field.pruned scope item else Field.prunedAt scope key item rest

end

mutual

/-- The value without the keys that the shape does not declare, at every level of the shape. -/
def Shape.restrict (value : Json) : Shape → Json
  | .object fields =>
    match value with
    | .object members =>
      .object (Members.filterMap (fun key item => Field.restrictAt key item fields) members)
    | other => other
  | .emptyArray => value
  | .arrayOf element =>
    match value with
    | .array items => .array (items.map fun item => element.restrict item)
    | other => other

/-- The value of a field without undeclared keys inside. -/
def Field.restrict (item : Json) : Field → Json
  | .leaf _ => item
  | .nested _ shape => shape.restrict item

/-- The value of a key if a field has that name. -/
def Field.restrictAt (key : String) (item : Json) : List Field → Option Json
  | [] => none
  | field :: rest =>
    if field.name = key then some (field.restrict item) else Field.restrictAt key item rest

end

/-- Nothing is left of a value of the wrong kind. -/
theorem Shape.pruned_of_kind_ne {shape : Shape} {value : Json} (hkind : value.kind ≠ shape.kind)
    (scope : Validator) : shape.pruned scope value = none := by
  cases shape <;> cases value <;> first
    | exact absurd rfl hkind
    | rfl

/-- Something is left of any other value, and it is not null. -/
theorem Shape.exists_pruned {shape : Shape} {value : Json} (hkind : value.kind = shape.kind)
    (scope : Validator) : ∃ tree, shape.pruned scope value = some tree ∧ tree ≠ .null := by
  cases shape with
  | object fields =>
    obtain ⟨members, rfl⟩ := Json.exists_of_kind_object hkind
    exact ⟨_, rfl, Json.noConfusion⟩
  | emptyArray =>
    obtain ⟨items, rfl⟩ := Json.exists_of_kind_array hkind
    exact ⟨_, rfl, Json.noConfusion⟩
  | arrayOf element =>
    obtain ⟨items, rfl⟩ := Json.exists_of_kind_array hkind
    exact ⟨_, rfl, Json.noConfusion⟩

/-- In a slot, null stands exactly for an item of the wrong kind. -/
theorem Shape.getD_pruned_eq_null_iff (shape : Shape) {scope : Validator} {value : Json} :
    (shape.pruned scope value).getD .null = .null ↔ value.kind ≠ shape.kind := by
  constructor
  · intro hnull hkind
    obtain ⟨tree, htree, hne⟩ := Shape.exists_pruned hkind scope
    rw [htree] at hnull
    exact hne hnull
  · intro hkind
    rw [Shape.pruned_of_kind_ne hkind]
    rfl

namespace Field

variable {scope : Validator} {members : Members} {fields : List Field} {key : String}
  {item : Json}

/-- Under a declared name stands what is left of the value for that field. -/
theorem prunedAt_of_mem {field : Field} (nodup : (fields.map Field.name).Nodup)
    (declared : field ∈ fields) (item : Json) :
    prunedAt scope field.name item fields = field.pruned scope item := by
  induction fields with
  | nil => cases declared
  | cons first rest ih =>
    obtain ⟨hfresh, nodup⟩ := List.nodup_cons.mp nodup
    rw [prunedAt]
    rcases List.mem_cons.mp declared with rfl | declared
    · rw [if_pos rfl]
    · have hname : first.name ≠ field.name := fun heq =>
        hfresh (heq ▸ List.mem_map_of_mem declared)
      rw [if_neg hname]
      exact ih nodup declared

/-- Under a name that is not declared nothing is left. -/
theorem prunedAt_of_notMem (h : key ∉ fields.map Field.name) (item : Json) :
    prunedAt scope key item fields = none := by
  induction fields with
  | nil => rfl
  | cons first rest ih =>
    rw [List.map_cons, List.mem_cons, not_or] at h
    rw [prunedAt, if_neg (Ne.symm h.1)]
    exact ih h.2

/-- The tree of what passed of an object has its keys in order. -/
theorem increasing_outlineAll {draft : Draft} (increasing : draft.valid.Increasing) :
    (outlineAll scope members draft fields).valid.Increasing := by
  induction fields generalizing draft with
  | nil => exact increasing
  | cons field rest ih =>
    refine ih ?_
    unfold Draft.splice
    cases (field.outline scope members).valid with
    | none => exact increasing
    | some tree => exact increasing.insert field.name tree

/-- What passes of a field is what is left of its value, if that is so for its shape. -/
theorem valid_outline {field : Field}
    (inner : ∀ name shape, field = .nested name shape →
      ∀ value, Members.get? name members = some value →
        (shape.outline (scope.scopeFor name) value).valid =
          shape.pruned (scope.scopeFor name) value) :
    (field.outline scope members).valid =
      (Members.get? field.name members).bind (field.pruned scope) := by
  cases hpresent : Members.present? field.name members with
  | none =>
    rw [outline_of_absent hpresent]
    -- The value is missing, or it is null and nothing is left of it.
    unfold Members.present? at hpresent
    cases hget : Members.get? field.name members with
    | none => rfl
    | some value =>
      rw [hget] at hpresent
      have hnull : value = .null := by
        cases value <;> first
          | rfl
          | cases hpresent
      subst hnull
      cases field with
      | leaf name => rfl
      | nested name shape => exact (Shape.pruned_of_kind_ne shape.kind_null_ne _).symm
  | some value =>
    have hget := (Members.present?_eq_some_iff.mp hpresent).1
    have hnonNull := Members.nonNull_of_present hpresent
    rw [hget]
    cases field with
    | leaf name =>
      rw [name_leaf] at hpresent
      simp only [outline, hpresent, Option.bind_some, pruned, hnonNull, Rule.outline]
      cases hcheck : (scope.ruleFor name).check value with
      | none => simp [Outcome.passed, Option.filter_some, hcheck]
      | some message => simp [Outcome.failure, Option.filter_some, hcheck]
    | nested name shape =>
      rw [name_nested] at hpresent hget
      simp only [outline, hpresent, Option.bind_some, pruned]
      exact inner name shape rfl value hget

/-- Where all of a value is left, no rule has a say. -/
theorem prunedAt_eq_restrictAt
    (h : ∀ field ∈ fields, field.name = key →
      field.pruned scope item = some (field.restrict item)) :
    prunedAt scope key item fields = restrictAt key item fields := by
  induction fields with
  | nil => rfl
  | cons field rest ih =>
    obtain ⟨hfield, hrest⟩ := List.forall_mem_cons.mp h
    rw [prunedAt, restrictAt]
    split
    · next hname => exact hfield hname
    · exact ih hrest

end Field

/-- What passes along a shape without repeated names is what is left of the pruned value. -/
theorem Shape.valid_outline (shape : Shape) (distinct : shape.DistinctNames) {scope : Validator}
    {value : Json} (ordered : value.isOrdered = true) :
    (shape.outline scope value).valid = shape.pruned scope value := by
  induction shape using Shape.induction generalizing scope value with
  | object fields ih =>
    by_cases hkind : value.kind = .object
    · obtain ⟨members, rfl⟩ := Json.exists_of_kind_object hkind
      obtain ⟨increasing, hmembers⟩ := Json.isOrdered_object.mp ordered
      have hfield (field : Field) (declared : field ∈ fields) :
          (field.outline scope members).valid =
            (Members.get? field.name members).bind (field.pruned scope) := by
        refine Field.valid_outline fun name shape heq value hget => ?_
        rw [heq] at declared
        exact ih name shape declared (Field.eachInside_iff.mp distinct.2 name shape declared)
          (hmembers _ (Members.mem_of_get? hget))
      -- Both trees have their keys in order, so lookup decides.
      have hsame : (Field.outlineAll scope members {} fields).valid =
          Members.filterMap (fun key item => Field.prunedAt scope key item fields) members := by
        have hempty : Members.Increasing ({} : Draft).valid := .nil
        refine (Field.increasing_outlineAll hempty).ext (increasing.filterMap _) fun key => ?_
        rw [increasing.get?_filterMap]
        by_cases hdeclared : key ∈ fields.map Field.name
        · obtain ⟨field, declared, rfl⟩ := List.mem_map.mp hdeclared
          rw [Field.get?_valid_outlineAll distinct.1 declared rfl, hfield field declared]
          simp only [Field.prunedAt_of_mem distinct.1 declared]
        · rw [Field.get?_valid_outlineAll_of_notMem _ hdeclared]
          simp only [Field.prunedAt_of_notMem hdeclared, Option.bind_fun_none]
          rfl
      show some (Json.object _) = some (Json.object _)
      rw [hsame]
    · rw [Shape.outline_of_kind_ne hkind, Shape.pruned_of_kind_ne hkind]
      rfl
  | emptyArray =>
    cases value <;> rfl
  | arrayOf element ih =>
    by_cases hkind : value.kind = .array
    · obtain ⟨items, rfl⟩ := Json.exists_of_kind_array hkind
      have hitems := Json.isOrdered_array.mp ordered
      show some (Json.array (List.map _ (List.map _ items))) =
        some (Json.array (List.map _ items))
      rw [List.map_map]
      -- Slot by slot, since neither side looks at more than one item for a slot.
      refine congrArg (fun slots => some (Json.array slots)) (List.map_congr_left ?_)
      intro item hitem
      show ((element.outline scope item).valid).getD .null = _
      rw [ih distinct (hitems item hitem)]
    · rw [Shape.outline_of_kind_ne hkind, Shape.pruned_of_kind_ne hkind]
      rfl

/-- Where there are no setters, the tree of what passed is the pruned value. -/
theorem Shape.valid_of_gives {shape : Shape} {scope : Validator} {value : Json}
    {outcome : Outcome}
    (free : scope.NoSetters) (distinct : shape.DistinctNames) (ordered : value.isOrdered = true)
    (h : Evaluation.Gives (shape.evaluate scope value) outcome) :
    outcome.valid = shape.pruned scope value := by
  rw [← shape.valid_outline distinct ordered, ← shape.wordless_of_gives free h]
  rfl

/-- A field that conforms leaves its value as it is, up to what is not declared inside. -/
theorem Field.pruned_of_conforms {scope : Validator} {members : Members} {field : Field}
    {item : Json} (found : Members.get? field.name members = some item)
    (inner : ∀ name shape, field = .nested name shape →
      shape.conforms (scope.scopeFor name) item = true →
        shape.pruned (scope.scopeFor name) item = some (shape.restrict item))
    (conforms : field.conforms scope members = true) :
    field.pruned scope item = some (field.restrict item) := by
  cases hpresent : Members.present? field.name members with
  | none =>
    -- A field without a value does not conform.
    cases field <;> simp_all [Field.conforms]
  | some value =>
    have hnonNull := Members.nonNull_of_present hpresent
    have hvalue := (Members.present?_eq_some_iff.mp hpresent).1
    rw [found] at hvalue
    cases hvalue
    cases field with
    | leaf name =>
      rw [name_leaf] at hpresent
      simp only [Field.conforms, hpresent] at conforms
      simp [pruned, restrict, hnonNull, Option.filter_some, conforms]
    | nested name shape =>
      rw [name_nested] at hpresent
      simp only [Field.conforms, hpresent] at conforms
      exact inner name shape rfl conforms

/-- Nothing is pruned from a value that conforms but what the shape does not declare. -/
theorem Shape.pruned_of_conforms (shape : Shape) {scope : Validator} {value : Json}
    (ordered : value.isOrdered = true) (conforms : shape.conforms scope value = true) :
    shape.pruned scope value = some (shape.restrict value) := by
  induction shape using Shape.induction generalizing scope value with
  | object fields ih =>
    obtain ⟨members, rfl⟩ := Json.exists_of_kind_object (Shape.kind_eq_of_conforms conforms)
    obtain ⟨increasing, hmembers⟩ := Json.isOrdered_object.mp ordered
    have hfields := Field.allConform_iff.mp conforms
    -- Member by member: what is under a key conforms to the field of that name.
    have hkeep (key : String) (item : Json) (hmem : (key, item) ∈ members) :
        Field.prunedAt scope key item fields = Field.restrictAt key item fields := by
      refine Field.prunedAt_eq_restrictAt fun field declared hname => ?_
      subst hname
      refine Field.pruned_of_conforms (increasing.get?_of_mem hmem) (fun name shape heq h => ?_)
        (hfields field declared)
      rw [heq] at declared
      exact ih name shape declared (hmembers _ hmem) h
    show some (Json.object _) = some (Json.object _)
    rw [Members.filterMap_congr hkeep]
  | emptyArray =>
    obtain ⟨items, rfl⟩ := Json.exists_of_kind_array (Shape.kind_eq_of_conforms conforms)
    cases items with
    | nil => rfl
    | cons item rest => cases conforms
  | arrayOf element ih =>
    obtain ⟨items, rfl⟩ := Json.exists_of_kind_array (Shape.kind_eq_of_conforms conforms)
    have hitems := Json.isOrdered_array.mp ordered
    have hconforms := List.all_eq_true.mp conforms
    refine congrArg (fun slots => some (Json.array slots)) (List.map_congr_left ?_)
    intro item hitem
    rw [ih (hitems item hitem) (hconforms item hitem)]
    rfl

end DocShape
