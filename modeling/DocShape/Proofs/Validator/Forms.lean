import DocShape.Rule.Setters
import DocShape.Proofs.Json.Members
import DocShape.Proofs.Validator.Answers
import DocShape.Proofs.Validator.Conformance
import DocShape.Proofs.Validator.Outlines
import DocShape.Proofs.Validator.Positions

/-!
# `DocShape.Proofs.Validator.Forms`: the form of an outcome

What an outcome can look like is a matter of the shape and the document alone, whatever the rules,
setters, nested validators and catalogs are. `Shape.ErrorTree` says which trees of errors a value
can have along a shape: a text in place of a value of the wrong kind, an object that holds
something for fields that failed, an array with a slot for each item and something in one of them.
It is defined apart from the evaluation, one constructor for each form.

`Shape.errorTree_of_gives` shows that an evaluation gives no other trees. Its invariant is that
all that a draft holds so far are errors of declared fields (`Draft.FailsIn`).
-/

set_option autoImplicit false

namespace DocShape

mutual

/-- The trees of errors that a value can have along a shape. -/
inductive Shape.ErrorTree : Shape → Json → Json → Prop where
  /-- A message in place of a value of the wrong kind. -/
  | message {shape : Shape} {value : Json} (kind : value.kind ≠ shape.kind) (text : String) :
    Shape.ErrorTree shape value (.string text)
  /-- The errors of fields, at least of one. -/
  | object {fields : List Field} {members errors : Members} (failed : errors ≠ [])
    (each : ∀ name error, (name, error) ∈ errors → Field.ErrorOf fields members name error) :
    Shape.ErrorTree (.object fields) (.object members) (.object errors)
  /-- A slot for each item, with null where nothing failed. Something failed somewhere. -/
  | array {element : Shape} {items slots : List Json} (length : slots.length = items.length)
    (failed : ∃ slot ∈ slots, slot ≠ .null)
    (each : ∀ (index : Nat) (item slot : Json), items[index]? = some item →
      slots[index]? = some slot → slot ≠ .null → Shape.ErrorTree element item slot) :
    Shape.ErrorTree (.arrayOf element) (.array items) (.array slots)

/-- The errors that an object with the given members can have under a name. -/
inductive Field.ErrorOf : List Field → Members → String → Json → Prop where
  /-- A message for a leaf field. -/
  | leaf {fields : List Field} {members : Members} {name : String}
    (declared : Field.leaf name ∈ fields) (text : String) :
    Field.ErrorOf fields members name (.string text)
  /-- A message for a structured field without a value. -/
  | absent {fields : List Field} {members : Members} {name : String} {shape : Shape}
    (declared : Field.nested name shape ∈ fields)
    (absent : Members.present? name members = none) (text : String) :
    Field.ErrorOf fields members name (.string text)
  /-- The tree of the value of a structured field. -/
  | nested {fields : List Field} {members : Members} {name : String} {shape : Shape}
    {value tree : Json} (declared : Field.nested name shape ∈ fields)
    (present : Members.present? name members = some value)
    (inner : Shape.ErrorTree shape value tree) : Field.ErrorOf fields members name tree

end

/-- A container that has no error in it: an object without members, or an array with nothing but
nulls. -/
def Json.Hollow : Json → Prop
  | .object members => members = []
  | .array slots => ∀ slot ∈ slots, slot = .null
  | _ => False

namespace Shape.ErrorTree

variable {shape : Shape} {value errors : Json}

/-- A tree of errors is not null. -/
theorem ne_null (tree : shape.ErrorTree value errors) : errors ≠ .null := by
  cases tree <;> exact Json.noConfusion

/-- The tree is a text exactly for a value of the wrong kind. -/
theorem isSome_text?_iff (tree : shape.ErrorTree value errors) :
    errors.text?.isSome = true ↔ value.kind ≠ shape.kind := by
  cases tree with
  | message kind text => exact ⟨fun _ => kind, fun _ => rfl⟩
  | object _ _ => exact ⟨nofun, fun kind => absurd rfl kind⟩
  | array _ _ _ => exact ⟨nofun, fun kind => absurd rfl kind⟩

/-- A tree of errors holds something. -/
theorem not_hollow (tree : shape.ErrorTree value errors) : ¬errors.Hollow := by
  intro hollow
  cases tree with
  | message _ _ => exact hollow
  | object failed _ => exact failed hollow
  | array _ failed _ =>
    obtain ⟨slot, hslot, hne⟩ := failed
    exact hne (hollow slot hslot)

/-- One step inside a tree is a tree again, unless there is a text or the null of a slot. -/
theorem child? (tree : shape.ErrorTree value errors) {step : String} {part : Json}
    (h : errors.child? step = some part) :
    part = .null ∨ (∃ text, part = .string text) ∨
      ∃ inner item, Shape.ErrorTree inner item part := by
  cases tree with
  | message _ _ => cases h
  | object _ each =>
    cases each step part (Members.mem_of_get? h) with
    | leaf _ text => exact .inr (.inl ⟨text, rfl⟩)
    | absent _ _ text => exact .inr (.inl ⟨text, rfl⟩)
    | nested _ _ inner => exact .inr (.inr ⟨_, _, inner⟩)
  | @array element items slots length _ each =>
    -- A step into an array is a position, and the slot there belongs to an item.
    obtain ⟨index, -, hslot⟩ := Option.bind_eq_some_iff.mp h
    by_cases hnull : part = .null
    · exact .inl hnull
    · have hindex : index < items.length := by
        have hlt := (List.getElem?_eq_some_iff.mp hslot).1
        omega
      have hitem := List.getElem?_eq_getElem hindex
      exact .inr (.inr ⟨_, _, each index _ part hitem hslot hnull⟩)

/-- Nowhere inside a tree is a container without an error. -/
theorem not_hollow_at? (tree : shape.ErrorTree value errors) {pointer : Pointer} {part : Json}
    (h : errors.at? pointer = some part) : ¬part.Hollow := by
  induction pointer generalizing shape value errors with
  | nil =>
    cases h
    exact tree.not_hollow
  | cons step rest ih =>
    obtain ⟨child, hchild, hrest⟩ := Option.bind_eq_some_iff.mp h
    rcases tree.child? hchild with rfl | ⟨text, rfl⟩ | ⟨_, _, inner⟩
    · -- There is nothing inside null and inside texts.
      cases rest <;> cases hrest
      exact id
    · cases rest <;> cases hrest
      exact id
    · exact ih inner hrest

end Shape.ErrorTree

/-! ### What an evaluation gives -/

/-- All errors of a draft are errors of declared fields. -/
def Draft.FailsIn (fields : List Field) (members : Members) (draft : Draft) : Prop :=
  ∀ name error, (name, error) ∈ draft.errors → Field.ErrorOf fields members name error

namespace Draft

variable {fields : List Field} {members : Members} {draft : Draft} {name : String}

/-- What is spliced in under the name of a field may bring an error of that field. -/
theorem FailsIn.splice (failsIn : draft.FailsIn fields members) {outcome : Outcome}
    (h : ∀ tree, outcome.errors = some tree → Field.ErrorOf fields members name tree) :
    (draft.splice name outcome).FailsIn fields members := by
  intro other error hmem
  unfold Draft.splice at hmem
  cases herrors : outcome.errors with
  | none =>
    rw [herrors] at hmem
    exact failsIn other error hmem
  | some tree =>
    rw [herrors] at hmem
    rcases Members.mem_insert hmem with ⟨rfl, rfl⟩ | hmem
    · exact h error herrors
    · exact failsIn other error hmem

/-- A message under the name of a field may be an error of that field. -/
theorem FailsIn.fail (failsIn : draft.FailsIn fields members) {message : String}
    (h : Field.ErrorOf fields members name (.string message)) :
    (draft.fail name message).FailsIn fields members := by
  rw [fail_eq_splice]
  refine failsIn.splice fun tree htree => ?_
  cases htree
  exact h

/-- A leaf field that fails its rule has a message, and one that passes adds no error. -/
theorem FailsIn.judge (failsIn : draft.FailsIn fields members) (rule : Rule) (value : Json)
    (declared : Field.leaf name ∈ fields) :
    (draft.judge rule ⟨name, value⟩).FailsIn fields members := by
  unfold Draft.judge
  cases rule.check value with
  | some message => exact failsIn.fail (.leaf declared message)
  | none => exact failsIn

/-- An object has a tree of errors if something is in it. -/
theorem errors_outcome {draft : Draft} {tree : Json} (h : draft.outcome.errors = some tree) :
    draft.errors ≠ [] ∧ tree = .object draft.errors := by
  unfold outcome Outcome.ofMembers at h
  cases herrors : draft.errors with
  | nil =>
    rw [herrors] at h
    cases h
  | cons entry rest =>
    rw [herrors] at h
    cases h
    exact ⟨List.cons_ne_nil _ _, rfl⟩

end Draft

/-- An array has a tree of errors if an item has one. -/
theorem Outcome.errors_ofItems {outcomes : List Outcome} {tree : Json}
    (h : (ofItems outcomes).errors = some tree) :
    (∃ outcome ∈ outcomes, outcome.errors.isSome = true) ∧
      tree = .array (outcomes.map fun outcome => outcome.errors.getD .null) := by
  unfold ofItems at h
  split at h
  · next hany =>
    cases h
    exact ⟨List.any_eq_true.mp hany, rfl⟩
  · cases h

/-- What came of an item comes from some item. -/
theorem exists_mem_of_forall₂ {α β : Type} {gives : α → β → Prop} {items : List α}
    {outcomes : List β} (h : List.Forall₂ gives items outcomes) {outcome : β}
    (hmem : outcome ∈ outcomes) : ∃ item ∈ items, gives item outcome := by
  induction h with
  | nil => cases hmem
  | cons hhead _ ih =>
    rcases List.mem_cons.mp hmem with rfl | hmem
    · exact ⟨_, List.mem_cons_self, hhead⟩
    · obtain ⟨item, hitem, hgives⟩ := ih hmem
      exact ⟨item, List.mem_cons_of_mem _ hitem, hgives⟩

open Evaluation

/-- A field without a value has a message. -/
theorem Field.errorOf_of_absent {fields : List Field} {field : Field} {members : Members}
    (declared : field ∈ fields) (absent : Members.present? field.name members = none)
    (message : String) : Field.ErrorOf fields members field.name (.string message) := by
  cases field with
  | leaf name => exact .leaf declared message
  | nested name shape => exact .absent declared absent message

mutual

/-- The tree of errors that an evaluation gives is one that the value can have. -/
theorem Shape.errorTree_of_gives (shape : Shape) {scope : Validator} {value tree : Json}
    {outcome : Outcome} (h : Gives (shape.evaluate scope value) outcome)
    (failed : outcome.errors = some tree) : shape.ErrorTree value tree := by
  by_cases hkind : value.kind = shape.kind
  · match shape with
    | .object fields =>
      obtain ⟨members, rfl⟩ := Json.exists_of_kind_object hkind
      obtain ⟨draft, hfields, rfl⟩ := Shape.gives_object h
      obtain ⟨some, rfl⟩ := Draft.errors_outcome failed
      -- The invariant holds of the empty draft, and every field keeps it.
      have hempty : Draft.FailsIn fields members {} :=
        fun _ _ hmem => absurd hmem List.not_mem_nil
      exact .object some
        (Field.failsIn_of_gives_all fields (List.Subset.refl fields) hempty hfields)
    | .emptyArray =>
      obtain ⟨items, rfl⟩ := Json.exists_of_kind_array hkind
      obtain ⟨-, rfl⟩ := Shape.gives_emptyArray h
      cases failed
    | .arrayOf element =>
      obtain ⟨items, rfl⟩ := Json.exists_of_kind_array hkind
      obtain ⟨outcomes, hitems, rfl⟩ := Shape.gives_arrayOf h
      obtain ⟨⟨part, hpart, hsome⟩, rfl⟩ := Outcome.errors_ofItems failed
      have heach : ∀ (index : Nat) (item slot : Json), items[index]? = some item →
          (outcomes.map fun outcome => outcome.errors.getD .null)[index]? = some slot →
          slot ≠ .null → element.ErrorTree item slot := by
        intro index item slot hitem hslot hne
        obtain ⟨found, hfound, hgives⟩ := exists_getElem?_of_forall₂ hitems hitem
        rw [List.getElem?_map, hfound] at hslot
        -- A slot is null exactly if nothing failed in its item.
        cases herrors : found.errors with
        | none =>
          rw [Option.map_some, herrors] at hslot
          exact absurd (Option.some.inj hslot).symm hne
        | some error =>
          rw [Option.map_some, herrors] at hslot
          cases hslot
          exact element.errorTree_of_gives hgives herrors
      refine .array ?_ ?_ heach
      · rw [List.length_map, hitems.length_eq]
      · -- The item with errors has a slot, and a tree of errors is not null.
        obtain ⟨item, -, hgives⟩ := exists_mem_of_forall₂ hitems hpart
        obtain ⟨error, herror⟩ := Option.isSome_iff_exists.mp hsome
        refine ⟨error, List.mem_map.mpr ⟨part, hpart, by rw [herror]; rfl⟩, ?_⟩
        exact (element.errorTree_of_gives hgives herror).ne_null
  · obtain ⟨message, rfl⟩ := Shape.gives_of_kind_ne hkind h
    cases failed
    exact .message hkind message

/-- A field adds no error but its own. -/
theorem Field.failsIn_of_gives (field : Field) {scope : Validator} {fields : List Field}
    {members : Members} {draft result : Draft} (declared : field ∈ fields)
    (failsIn : draft.FailsIn fields members)
    (h : Gives (field.evaluate scope members draft) result) : result.FailsIn fields members := by
  cases hpresent : Members.present? field.name members with
  | none =>
    obtain ⟨message, rfl⟩ := Field.gives_of_absent hpresent h
    exact failsIn.fail (Field.errorOf_of_absent declared hpresent message)
  | some value =>
    match field with
    | .leaf name =>
      rw [Field.gives_leaf hpresent h]
      exact failsIn.judge _ value declared
    | .nested name shape =>
      obtain ⟨outcome, hvalue, rfl⟩ := Field.gives_nested hpresent h
      exact failsIn.splice fun tree htree =>
        .nested declared hpresent (shape.errorTree_of_gives hvalue htree)

/-- Fields that are evaluated in order add no errors but their own. -/
theorem Field.failsIn_of_gives_all (rest : List Field) {scope : Validator} {fields : List Field}
    {members : Members} {draft result : Draft} (declared : rest ⊆ fields)
    (failsIn : draft.FailsIn fields members)
    (h : Gives (Field.evaluateAll scope members draft rest) result) :
    result.FailsIn fields members := by
  match rest with
  | [] =>
    rw [Field.gives_nil h]
    exact failsIn
  | field :: others =>
    obtain ⟨hfield, hothers⟩ := List.cons_subset.mp declared
    obtain ⟨middle, hgives, hrest⟩ := Field.gives_cons h
    exact Field.failsIn_of_gives_all others hothers
      (field.failsIn_of_gives hfield failsIn hgives) hrest

end

/-- A value of the right kind passes as a container of that kind, an array with a slot for each
item. -/
theorem Shape.exists_valid_of_gives {shape : Shape} {scope : Validator} {value : Json}
    {outcome : Outcome} (hkind : value.kind = shape.kind)
    (h : Gives (shape.evaluate scope value) outcome) :
    ∃ valid, outcome.valid = some valid ∧ valid.kind = shape.kind ∧
      ∀ items, value = .array items →
        ∃ slots, valid = .array slots ∧ slots.length = items.length := by
  cases shape with
  | object fields =>
    obtain ⟨members, rfl⟩ := Json.exists_of_kind_object hkind
    obtain ⟨draft, -, rfl⟩ := Shape.gives_object h
    exact ⟨.object draft.valid, rfl, rfl, nofun⟩
  | emptyArray =>
    obtain ⟨items, rfl⟩ := Json.exists_of_kind_array hkind
    obtain ⟨rfl, rfl⟩ := Shape.gives_emptyArray h
    refine ⟨.array [], rfl, rfl, fun others heq => ?_⟩
    cases heq
    exact ⟨[], rfl, rfl⟩
  | arrayOf element =>
    obtain ⟨items, rfl⟩ := Json.exists_of_kind_array hkind
    obtain ⟨outcomes, hitems, rfl⟩ := Shape.gives_arrayOf h
    refine ⟨_, rfl, rfl, fun others heq => ?_⟩
    cases heq
    exact ⟨_, rfl, by rw [List.length_map, hitems.length_eq]⟩

namespace Validator

/-- The form of every outcome. Nothing passes of a document exactly if it is not the container
that the shape asks for, and exactly then the errors are a text. Otherwise such a container
passes, an array with a slot for each item. The errors form a tree along the shape, and nowhere in
it is an object without members or an array of nulls. -/
theorem form_of_answer {validator : Validator} {shape : Shape} {document : Json} {store : Store}
    {outcome : Outcome}
    (answered : (validator.validateShape shape document).answer store = .ok outcome) :
    (outcome.valid = none ↔ document.kind ≠ shape.kind) ∧
      (outcome.errorMessage?.isSome = true ↔ document.kind ≠ shape.kind) ∧
      (∀ valid, outcome.valid = some valid → valid.kind = shape.kind ∧
        ∀ items, document = .array items →
          ∃ slots, valid = .array slots ∧ slots.length = items.length) ∧
      ∀ errors, outcome.errors = some errors → shape.ErrorTree document errors ∧
        ∀ pointer part, errors.at? pointer = some part → ¬part.Hollow := by
  have gives := gives_of_answer answered
  have htree (errors : Json) (failed : outcome.errors = some errors) :
      shape.ErrorTree document errors := shape.errorTree_of_gives gives failed
  have herrors : ∀ errors, outcome.errors = some errors → shape.ErrorTree document errors ∧
      ∀ pointer part, errors.at? pointer = some part → ¬part.Hollow := by
    intro errors failed
    exact ⟨htree errors failed, fun pointer part => (htree errors failed).not_hollow_at?⟩
  by_cases hkind : document.kind = shape.kind
  · obtain ⟨found, hfound, hcontainer⟩ := Shape.exists_valid_of_gives hkind gives
    -- A tree along the shape is a text only for a value of the wrong kind.
    have hmessage : outcome.errorMessage?.isSome = true → document.kind ≠ shape.kind := by
      intro hsome
      unfold Outcome.errorMessage? at hsome
      cases failed : outcome.errors with
      | none =>
        rw [failed] at hsome
        cases hsome
      | some errors =>
        rw [failed] at hsome
        exact (htree errors failed).isSome_text?_iff.mp hsome
    refine ⟨?_, ⟨hmessage, fun hne => absurd hkind hne⟩, ?_, herrors⟩
    · rw [hfound]
      exact ⟨nofun, fun hne => absurd hkind hne⟩
    · intro valid passed
      rw [hfound] at passed
      cases passed
      exact hcontainer
  · obtain ⟨message, rfl⟩ := Shape.gives_of_kind_ne hkind gives
    exact ⟨⟨fun _ => hkind, fun _ => rfl⟩, ⟨fun _ => hkind, fun _ => rfl⟩, nofun, herrors⟩

/-- A setter that empties what passed, a nested validator that refuses an item with an empty
message, an item and a field of the wrong kind, and a null. -/
theorem form_of_owner :
    let owner : Validator :=
      { (default : Validator) with
        schema := .ofList [("name", .rule { test := none, set := some Setter.clear }),
          ("pets", .nested (.refusing "lace"))]
        catalog := .fixed "missing" }
    let shape : Shape := .object [.leaf "name", .leaf "age",
      .nested "pets" (.arrayOf (.object [.leaf "name"])), .nested "tags" .emptyArray]
    let document : Json := .object [("age", .null), ("name", .string "ann"),
      ("pets", .array [.object [("name", .string "roojoo")], .object [("name", .string "lace")],
        .null]),
      ("tags", .string "red")]
    let outcome : Outcome :=
      ⟨some (.object [("pets",
          .array [.object [("name", .string "roojoo")], .object [], .null])]),
        some (.object [("age", .string "missing"),
          ("pets", .array [.null, .object [("name", .string "")],
            .string "This information is required"]),
          ("tags", .string "missing")])⟩
    (owner.validateShape shape document).answer {} = .ok outcome ∧
      (outcome.valid = none ↔ document.kind ≠ shape.kind) ∧
      (outcome.errorMessage?.isSome = true ↔ document.kind ≠ shape.kind) ∧
      (∀ valid, outcome.valid = some valid → valid.kind = shape.kind ∧
        ∀ items, document = .array items →
          ∃ slots, valid = .array slots ∧ slots.length = items.length) ∧
      ∀ errors, outcome.errors = some errors → shape.ErrorTree document errors ∧
        ∀ pointer part, errors.at? pointer = some part → ¬part.Hollow := by
  intro owner shape document outcome
  have answered : (owner.validateShape shape document).answer {} = .ok outcome := by
    decide +kernel
  exact ⟨answered, form_of_answer answered⟩

end Validator

end DocShape
