import DocShape.Proofs.Shape.Names
import DocShape.Proofs.Validator.Drafts

/-!
# `DocShape.Proofs.Validator.Outlines`: outcomes without their messages

Where no rule has a setter, an outcome is its messages and nothing else that a walk could change.
`Shape.outline` gives the outcome with every message left blank. It asks no catalog, and the
outcome of an object is put together from one part for each field. `Shape.wordless_of_gives`: an
outcome that an evaluation gives is the outline of the value, up to its messages.

`Field.present?_valid_outlineAll` reads the tree of what passed back: under the name of a field
stands what the part of the field left there.
-/

set_option autoImplicit false

namespace DocShape

namespace Json

mutual

/-- The same value with every text left blank. -/
def skeleton : Json → Json
  | string _ => .string ""
  | array items => .array (skeletonItems items)
  | object members => .object (skeletonMembers members)
  | value => value

/-- Leaves the texts of every item blank. -/
def skeletonItems : List Json → List Json
  | [] => []
  | item :: items => skeleton item :: skeletonItems items

/-- Leaves the texts of every member blank, but not the keys. -/
def skeletonMembers : List (String × Json) → List (String × Json)
  | [] => []
  | (key, value) :: rest => (key, skeleton value) :: skeletonMembers rest

end

/-- The skeleton of an array is taken item by item. -/
theorem skeletonItems_eq_map (items : List Json) : skeletonItems items = items.map skeleton := by
  induction items with
  | nil => rfl
  | cons item rest ih => rw [skeletonItems, ih, List.map_cons]

/-- Setting a member sets its skeleton. -/
theorem skeletonMembers_insert (key : String) (value : Json) (members : Members) :
    skeletonMembers (Members.insert key value members) =
      Members.insert key value.skeleton (skeletonMembers members) := by
  induction members with
  | nil => rfl
  | cons entry rest ih =>
    obtain ⟨other, old⟩ := entry
    simp only [Members.insert, skeletonMembers]
    -- Keys are not left blank, so the place of the new one is the same on both sides.
    split
    · rfl
    · split
      · rfl
      · rw [skeletonMembers, ih]

/-- A skeleton has members exactly if the object has. -/
theorem isEmpty_skeletonMembers (members : Members) :
    (skeletonMembers members).isEmpty = members.isEmpty := by
  cases members <;> rfl

end Json

/-- The outcome with its messages left blank. -/
def Outcome.wordless (outcome : Outcome) : Outcome :=
  { outcome with errors := outcome.errors.map Json.skeleton }

/-- The draft with its messages left blank. -/
def Draft.wordless (draft : Draft) : Draft :=
  { draft with errors := Json.skeletonMembers draft.errors }

/-- The part of a leaf field without setter, with a blank message. -/
def Rule.outline (rule : Rule) (value : Json) : Outcome :=
  match rule.check value with
  | some _ => .failure ""
  | none => .passed value

mutual

/-- The outcome of a value, with its messages left blank. -/
def Shape.outline (scope : Validator) (value : Json) : Shape → Outcome
  | .object fields =>
    match value with
    | .object members => (Field.outlineAll scope members {} fields).outcome
    | _ => .failure ""
  | .emptyArray =>
    match value with
    | .array _ => .passed (.array [])
    | _ => .failure ""
  | .arrayOf element =>
    match value with
    | .array items => .ofItems (items.map fun item => element.outline scope item)
    | _ => .failure ""

/-- What the field of an object adds to its outcome. -/
def Field.outline (scope : Validator) (members : Members) : Field → Outcome
  | .leaf name =>
    match Members.present? name members with
    | none => .failure ""
    | some value => (scope.ruleFor name).outline value
  | .nested name shape =>
    match Members.present? name members with
    | none => .failure ""
    | some value => shape.outline (scope.scopeFor name) value

/-- A draft with the parts of some fields. -/
def Field.outlineAll (scope : Validator) (members : Members) (draft : Draft) : List Field → Draft
  | [] => draft
  | field :: rest =>
    Field.outlineAll scope members (draft.splice field.name (field.outline scope members)) rest

end

/-! ### Leaving messages blank -/

namespace Draft

variable (draft : Draft) (name : String)

/-- Splicing an outcome in and leaving messages blank can be done in either order. -/
theorem wordless_splice (outcome : Outcome) :
    (draft.splice name outcome).wordless = draft.wordless.splice name outcome.wordless := by
  obtain ⟨valid, errors⟩ := outcome
  cases errors with
  | none => cases valid <;> rfl
  | some tree =>
    have herrors := Json.skeletonMembers_insert name tree draft.errors
    cases valid <;> simp [splice, wordless, Outcome.wordless, herrors]

/-- A failure is spliced in like the outcome of a value. -/
theorem fail_eq_splice (message : String) :
    draft.fail name message = draft.splice name (.failure message) :=
  rfl

/-- Without a setter, so is what a rule leaves. -/
theorem wordless_judge {rule : Rule} (hset : rule.set = none) (value : Json) :
    (draft.judge rule ⟨name, value⟩).wordless =
      draft.wordless.splice name (rule.outline value) := by
  unfold judge Rule.outline
  cases rule.check value with
  | some message =>
    simp only [fail_eq_splice]
    exact wordless_splice draft name (.failure message)
  | none =>
    -- What passes is written as it is. Only the tree of errors has texts to leave blank.
    simp only [assign, Rule.assign, hset]
    rfl

/-- The outcome of a draft is left blank as the draft is. -/
theorem wordless_outcome : draft.outcome.wordless = draft.wordless.outcome := by
  unfold outcome Outcome.ofMembers Outcome.wordless wordless
  simp only [Json.isEmpty_skeletonMembers]
  cases draft.errors.isEmpty <;> rfl

end Draft

/-- The outcome of items is left blank item by item. -/
theorem Outcome.wordless_ofItems (outcomes : List Outcome) :
    (Outcome.ofItems outcomes).wordless = .ofItems (outcomes.map wordless) := by
  have hany : (outcomes.map wordless).any (fun item => item.errors.isSome) =
      outcomes.any fun item => item.errors.isSome := by
    simp [List.any_map, Function.comp_def, wordless]
  have hslot (item : Outcome) :
      (item.errors.getD .null).skeleton = (item.errors.map Json.skeleton).getD .null := by
    cases item.errors <;> rfl
  unfold ofItems
  rw [hany]
  -- Both trees are built slot by slot, and a slot with null has no text.
  cases outcomes.any fun item => item.errors.isSome <;>
    simp [wordless, Json.skeleton, Json.skeletonItems_eq_map, Function.comp_def, hslot]

/-- A value of another kind than the shape asks for fails as a whole. -/
theorem Shape.outline_of_kind_ne {shape : Shape} {value : Json} (hkind : value.kind ≠ shape.kind)
    (scope : Validator) : shape.outline scope value = .failure "" := by
  cases shape <;> cases value <;> first
    | exact absurd rfl hkind
    | rfl

/-- A field whose value is missing or null fails. -/
theorem Field.outline_of_absent {field : Field} {members : Members}
    (absent : Members.present? field.name members = none) (scope : Validator) :
    field.outline scope members = .failure "" := by
  cases field with
  | leaf name =>
    rw [Field.name_leaf] at absent
    simp only [Field.outline, absent]
  | nested name shape =>
    rw [Field.name_nested] at absent
    simp only [Field.outline, absent]

open Evaluation

/-! ### Outcomes and outlines -/

mutual

/-- An outcome without its messages is the outline of the value. -/
theorem Shape.wordless_of_gives (shape : Shape) {scope : Validator} {value : Json}
    {outcome : Outcome} (free : scope.NoSetters)
    (h : Gives (shape.evaluate scope value) outcome) :
    outcome.wordless = shape.outline scope value := by
  by_cases hkind : value.kind = shape.kind
  · match shape with
    | .object fields =>
      obtain ⟨members, rfl⟩ := Json.exists_of_kind_object hkind
      obtain ⟨draft, hfields, rfl⟩ := Shape.gives_object h
      rw [Draft.wordless_outcome, Field.wordless_of_gives_all fields free hfields]
      rfl
    | .emptyArray =>
      obtain ⟨items, rfl⟩ := Json.exists_of_kind_array hkind
      obtain ⟨rfl, rfl⟩ := Shape.gives_emptyArray h
      rfl
    | .arrayOf element =>
      obtain ⟨items, rfl⟩ := Json.exists_of_kind_array hkind
      obtain ⟨outcomes, hitems, rfl⟩ := Shape.gives_arrayOf h
      -- The outcomes and the items stand next to each other, one for one.
      have hmap : outcomes.map Outcome.wordless =
          items.map fun item => element.outline scope item :=
        map_eq_map_of_forall₂ hitems fun item outcome hitem =>
          element.wordless_of_gives free hitem
      rw [Outcome.wordless_ofItems, hmap]
      rfl
  · obtain ⟨message, rfl⟩ := Shape.gives_of_kind_ne hkind h
    rw [Shape.outline_of_kind_ne hkind]
    rfl

/-- A field adds its part to the draft, up to messages. -/
theorem Field.wordless_of_gives (field : Field) {scope : Validator} {members : Members}
    {draft result : Draft} (free : scope.NoSetters)
    (h : Gives (field.evaluate scope members draft) result) :
    result.wordless = draft.wordless.splice field.name (field.outline scope members) := by
  cases hpresent : Members.present? field.name members with
  | none =>
    obtain ⟨message, rfl⟩ := Field.gives_of_absent hpresent h
    rw [Field.outline_of_absent hpresent, Draft.fail_eq_splice, Draft.wordless_splice]
    rfl
  | some value =>
    match field with
    | .leaf name =>
      rw [Field.name_leaf] at hpresent
      rw [Field.gives_leaf hpresent h, Draft.wordless_judge draft name (free.ruleFor name)]
      simp only [Field.outline, hpresent, Field.name_leaf]
    | .nested name shape =>
      rw [Field.name_nested] at hpresent
      obtain ⟨outcome, hvalue, rfl⟩ := Field.gives_nested hpresent h
      -- The validator below has no setters either.
      rw [Draft.wordless_splice, shape.wordless_of_gives (free.scopeFor name) hvalue]
      simp only [Field.outline, hpresent, Field.name_nested]

/-- Fields that are evaluated in order add their parts to the draft, up to messages. -/
theorem Field.wordless_of_gives_all (fields : List Field) {scope : Validator} {members : Members}
    {draft result : Draft} (free : scope.NoSetters)
    (h : Gives (Field.evaluateAll scope members draft fields) result) :
    result.wordless = Field.outlineAll scope members draft.wordless fields := by
  match fields with
  | [] =>
    rw [Field.gives_nil h]
    rfl
  | field :: rest =>
    obtain ⟨middle, hfield, hrest⟩ := Field.gives_cons h
    rw [Field.wordless_of_gives_all rest free hrest, field.wordless_of_gives free hfield]
    rfl

end

/-! ### Outcomes of the same value -/

/-- Drafts that are the same but for messages stay so when a leaf field is put to its rule. The
rule may have a setter. -/
theorem Draft.wordless_judge_congr {draft other : Draft} (same : draft.wordless = other.wordless)
    (rule : Rule) (field : FieldContext) :
    (draft.judge rule field).wordless = (other.judge rule field).wordless := by
  unfold Draft.judge
  cases rule.check field.value with
  | some message =>
    simp only [Draft.fail_eq_splice]
    rw [Draft.wordless_splice, Draft.wordless_splice, same]
  | none =>
    -- A setter sees what passed so far, and no message.
    have hvalid : draft.wordless.valid = other.wordless.valid := congrArg Draft.valid same
    have herrors : draft.wordless.errors = other.wordless.errors := congrArg Draft.errors same
    show (⟨rule.assign field draft.wordless.valid, draft.wordless.errors⟩ : Draft) =
      ⟨rule.assign field other.wordless.valid, other.wordless.errors⟩
    rw [hvalid, herrors]

/-- What is said of two rows of outcomes is the same, if it is the same for outcomes of one
item. -/
theorem Evaluation.map_congr_of_forall₂ {γ : Type} {gives : Json → Outcome → Prop}
    {items : List Json} {outcomes others : List Outcome} {f : Outcome → γ}
    (h : List.Forall₂ gives items outcomes) (hothers : List.Forall₂ gives items others)
    (each : ∀ item outcome other, gives item outcome → gives item other → f outcome = f other) :
    outcomes.map f = others.map f := by
  -- Both rows have one outcome for each item, so they are as long as each other.
  induction h generalizing others with
  | nil =>
    cases hothers
    rfl
  | cons hitem _ ih =>
    cases hothers with
    | cons hother hrest => rw [List.map_cons, List.map_cons, each _ _ _ hitem hother, ih hrest]

mutual

/-- Two outcomes of a value are the same but for their messages, whatever setters do. -/
theorem Shape.wordless_congr_of_gives (shape : Shape) {scope : Validator} {value : Json}
    {outcome other : Outcome} (h : Gives (shape.evaluate scope value) outcome)
    (hother : Gives (shape.evaluate scope value) other) : outcome.wordless = other.wordless := by
  -- Setters see no messages, so they do the same to both drafts. No outline is needed here.
  by_cases hkind : value.kind = shape.kind
  · match shape with
    | .object fields =>
      obtain ⟨members, rfl⟩ := Json.exists_of_kind_object hkind
      obtain ⟨draft, hfields, rfl⟩ := Shape.gives_object h
      obtain ⟨otherDraft, hotherFields, rfl⟩ := Shape.gives_object hother
      rw [Draft.wordless_outcome, Draft.wordless_outcome,
        Field.wordless_congr_of_gives_all fields rfl hfields hotherFields]
    | .emptyArray =>
      obtain ⟨items, rfl⟩ := Json.exists_of_kind_array hkind
      rw [(Shape.gives_emptyArray h).2, (Shape.gives_emptyArray hother).2]
    | .arrayOf element =>
      obtain ⟨items, rfl⟩ := Json.exists_of_kind_array hkind
      obtain ⟨outcomes, hitems, rfl⟩ := Shape.gives_arrayOf h
      obtain ⟨others, hotherItems, rfl⟩ := Shape.gives_arrayOf hother
      have hmap : outcomes.map Outcome.wordless = others.map Outcome.wordless :=
        map_congr_of_forall₂ hitems hotherItems fun item outcome other hitem hother =>
          element.wordless_congr_of_gives hitem hother
      rw [Outcome.wordless_ofItems, Outcome.wordless_ofItems, hmap]
  · obtain ⟨message, rfl⟩ := Shape.gives_of_kind_ne hkind h
    obtain ⟨otherMessage, rfl⟩ := Shape.gives_of_kind_ne hkind hother
    rfl

/-- Drafts that are the same but for messages stay so when a field is evaluated. -/
theorem Field.wordless_congr_of_gives (field : Field) {scope : Validator} {members : Members}
    {draft other result otherResult : Draft} (same : draft.wordless = other.wordless)
    (h : Gives (field.evaluate scope members draft) result)
    (hother : Gives (field.evaluate scope members other) otherResult) :
    result.wordless = otherResult.wordless := by
  cases hpresent : Members.present? field.name members with
  | none =>
    -- The messages may differ, since the catalog may have counted on in between.
    obtain ⟨message, rfl⟩ := Field.gives_of_absent hpresent h
    obtain ⟨otherMessage, rfl⟩ := Field.gives_of_absent hpresent hother
    simp only [Draft.fail_eq_splice, Draft.wordless_splice, same]
    rfl
  | some value =>
    match field with
    | .leaf name =>
      rw [Field.name_leaf] at hpresent
      rw [Field.gives_leaf hpresent h, Field.gives_leaf hpresent hother]
      exact Draft.wordless_judge_congr same _ _
    | .nested name shape =>
      rw [Field.name_nested] at hpresent
      obtain ⟨outcome, hvalue, rfl⟩ := Field.gives_nested hpresent h
      obtain ⟨otherOutcome, hotherValue, rfl⟩ := Field.gives_nested hpresent hother
      rw [Draft.wordless_splice, Draft.wordless_splice, same,
        shape.wordless_congr_of_gives hvalue hotherValue]

/-- Drafts that are the same but for messages stay so along all fields. -/
theorem Field.wordless_congr_of_gives_all (fields : List Field) {scope : Validator}
    {members : Members} {draft other result otherResult : Draft}
    (same : draft.wordless = other.wordless)
    (h : Gives (Field.evaluateAll scope members draft fields) result)
    (hother : Gives (Field.evaluateAll scope members other fields) otherResult) :
    result.wordless = otherResult.wordless := by
  match fields with
  | [] =>
    rw [Field.gives_nil h, Field.gives_nil hother]
    exact same
  | field :: rest =>
    obtain ⟨middle, hfield, hrest⟩ := Field.gives_cons h
    obtain ⟨otherMiddle, hotherField, hotherRest⟩ := Field.gives_cons hother
    have hmiddle := field.wordless_congr_of_gives same hfield hotherField
    exact Field.wordless_congr_of_gives_all rest hmiddle hrest hotherRest

end

/-! ### What stands under the names of fields -/

/-- What is present is not null. -/
theorem Members.nonNull_of_present {name : String} {members : Members} {value : Json}
    (present : Members.present? name members = some value) : value.nonNull? = some value := by
  obtain ⟨found, -, hvalue⟩ := Option.bind_eq_some_iff.mp present
  cases found <;> cases hvalue <;> rfl

/-- A value of the kind that the shape asks for passes as a container. -/
theorem Shape.exists_valid_outline {shape : Shape} {value : Json}
    (hkind : value.kind = shape.kind) (scope : Validator) :
    ∃ tree, (shape.outline scope value).valid = some tree ∧ tree.nonNull? = some tree := by
  cases shape with
  | object fields =>
    obtain ⟨members, rfl⟩ := Json.exists_of_kind_object hkind
    exact ⟨_, rfl, rfl⟩
  | emptyArray =>
    obtain ⟨items, rfl⟩ := Json.exists_of_kind_array hkind
    exact ⟨_, rfl, rfl⟩
  | arrayOf element =>
    obtain ⟨items, rfl⟩ := Json.exists_of_kind_array hkind
    exact ⟨_, rfl, rfl⟩

/-- If nothing of a value passes, it fails as a whole. -/
theorem Shape.outline_of_valid_eq_none {shape : Shape} {scope : Validator} {value : Json}
    (h : (shape.outline scope value).valid = none) : shape.outline scope value = .failure "" := by
  by_cases hkind : value.kind = shape.kind
  · obtain ⟨tree, htree, -⟩ := Shape.exists_valid_outline hkind scope
    rw [h] at htree
    cases htree
  · exact Shape.outline_of_kind_ne hkind scope

/-- What passes of a value is not null. -/
theorem Shape.nonNull_of_valid_outline {shape : Shape} {scope : Validator} {value tree : Json}
    (h : (shape.outline scope value).valid = some tree) : tree.nonNull? = some tree := by
  by_cases hkind : value.kind = shape.kind
  · obtain ⟨found, hfound, hnonNull⟩ := Shape.exists_valid_outline hkind scope
    rw [h] at hfound
    cases hfound
    exact hnonNull
  · rw [Shape.outline_of_kind_ne hkind] at h
    cases h

namespace Field

variable {scope : Validator} {members : Members}

/-- What passes of a field is not null. -/
theorem nonNull_of_valid_outline {field : Field} {tree : Json}
    (h : (field.outline scope members).valid = some tree) : tree.nonNull? = some tree := by
  cases hpresent : Members.present? field.name members with
  | none =>
    rw [outline_of_absent hpresent] at h
    cases h
  | some value =>
    cases field with
    | leaf name =>
      rw [name_leaf] at hpresent
      simp only [outline, hpresent, Rule.outline] at h
      split at h
      · cases h
      · -- The value passes as it is, and a value that is present is not null.
        cases h
        exact Members.nonNull_of_present hpresent
    | nested name shape =>
      rw [name_nested] at hpresent
      simp only [outline, hpresent] at h
      exact Shape.nonNull_of_valid_outline h

/-- If nothing of a field passes, it fails as a whole. -/
theorem outline_of_valid_eq_none {field : Field}
    (h : (field.outline scope members).valid = none) :
    field.outline scope members = .failure "" := by
  cases hpresent : Members.present? field.name members with
  | none => exact outline_of_absent hpresent scope
  | some value =>
    cases field with
    | leaf name =>
      rw [name_leaf] at hpresent
      simp only [outline, hpresent, Rule.outline] at h ⊢
      split at h
      · rfl
      · cases h
    | nested name shape =>
      rw [name_nested] at hpresent
      simp only [outline, hpresent] at h ⊢
      exact Shape.outline_of_valid_eq_none h

/-- Fields of other names leave what stands under a name. -/
theorem get?_valid_outlineAll_of_notMem {fields : List Field} {name : String} (draft : Draft)
    (hname : name ∉ fields.map Field.name) :
    Members.get? name (outlineAll scope members draft fields).valid =
      Members.get? name draft.valid := by
  induction fields generalizing draft with
  | nil => rfl
  | cons field rest ih =>
    rw [List.map_cons, List.mem_cons, not_or] at hname
    have hkeeps : Draft.Keeps True name draft
        (draft.splice field.name (field.outline scope members)) :=
      Draft.keeps_splice (Ne.symm hname.1) True _
    exact (ih _ hname.2).trans (hkeeps.valid trivial)

/-- What passes of a field stands under its name, if no other field has that name. -/
theorem get?_valid_outlineAll {fields : List Field} {field : Field} {draft : Draft}
    (nodup : (fields.map Field.name).Nodup) (declared : field ∈ fields)
    (fresh : Members.get? field.name draft.valid = none) :
    Members.get? field.name (outlineAll scope members draft fields).valid =
      (field.outline scope members).valid := by
  induction fields generalizing draft with
  | nil => cases declared
  | cons first rest ih =>
    obtain ⟨hfresh, nodup⟩ := List.nodup_cons.mp nodup
    rw [outlineAll]
    rcases List.mem_cons.mp declared with rfl | declared
    · rw [get?_valid_outlineAll_of_notMem _ hfresh, Draft.get?_valid_splice, fresh,
        Option.or_none]
    · -- The field in front has another name and leaves this one alone.
      have hname : first.name ≠ field.name := by
        intro heq
        rw [heq] at hfresh
        exact hfresh (List.mem_map_of_mem (f := Field.name) declared)
      have hkeeps : Draft.Keeps True field.name draft
          (draft.splice first.name (first.outline scope members)) :=
        Draft.keeps_splice hname True _
      exact ih nodup declared ((hkeeps.valid trivial).trans fresh)

/-- What is present in the tree of what passed is what passed. -/
theorem present?_valid_outlineAll {fields : List Field} {field : Field}
    (nodup : (fields.map Field.name).Nodup) (declared : field ∈ fields) :
    Members.present? field.name (outlineAll scope members {} fields).valid =
      (field.outline scope members).valid := by
  unfold Members.present?
  rw [get?_valid_outlineAll nodup declared rfl]
  cases hvalid : (field.outline scope members).valid with
  | none => rfl
  | some tree => exact nonNull_of_valid_outline hvalid

end Field

end DocShape
