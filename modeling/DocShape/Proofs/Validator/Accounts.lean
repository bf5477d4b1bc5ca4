import DocShape.Proofs.Shape.RoundTrip
import DocShape.Proofs.Validator.Forms
import DocShape.Proofs.Validator.Pruning

/-!
# `DocShape.Proofs.Validator.Accounts`: every declared field is accounted for

Without setters, what an object shape declares ends up in the two trees and nothing else does. A
leaf is in one of them, a structured field in one or in both. `Field.Accounted` says when it is
where.

What a field adds to a draft is one outcome, spliced in under its name (`Field.Yields`), and
nothing else writes there. So each case of the account is a case of what the field yields.
`Validator.prunes_of_answer` carries this along every path of a document.
-/

set_option autoImplicit false

namespace DocShape

open Evaluation

/-! ### What a field yields -/

/-- The outcomes that a field can add to a draft, if its rule has no setter. -/
inductive Field.Yields (scope : Validator) (members : Members) : Field → Outcome → Prop where
  | absent {field : Field} (absent : Members.present? field.name members = none)
    (message : String) : Yields scope members field (.failure message)
  | failed {name message : String} {value : Json}
    (present : Members.present? name members = some value)
    (check : (scope.ruleFor name).check value = some message) :
    Yields scope members (.leaf name) (.failure message)
  | passed {name : String} {value : Json} (present : Members.present? name members = some value)
    (check : (scope.ruleFor name).check value = none) :
    Yields scope members (.leaf name) (.passed value)
  | nested {name : String} {shape : Shape} {value : Json} {part : Outcome}
    (present : Members.present? name members = some value)
    (gives : Gives (shape.evaluate (scope.scopeFor name) value) part) :
    Yields scope members (.nested name shape) part

namespace Field

variable {scope : Validator} {members : Members} {draft result : Draft}

/-- A field without setter adds what it yields under its name. -/
theorem exists_yield_of_gives {field : Field} (free : scope.SetterFree)
    (h : Gives (field.evaluate scope members draft) result) :
    ∃ part, field.Yields scope members part ∧ result = draft.splice field.name part := by
  -- A value that is missing fails alike for both kinds of fields.
  cases hpresent : Members.present? field.name members with
  | none =>
    obtain ⟨message, rfl⟩ := gives_of_absent hpresent h
    exact ⟨.failure message, .absent hpresent message, rfl⟩
  | some value =>
    cases field with
    | leaf name =>
      rw [name_leaf] at hpresent ⊢
      rw [gives_leaf hpresent h]
      unfold Draft.judge
      cases hcheck : (scope.ruleFor name).check value with
      | some message => exact ⟨.failure message, .failed hpresent hcheck, rfl⟩
      | none =>
        refine ⟨.passed value, .passed hpresent hcheck, ?_⟩
        simp only [Draft.assign, Rule.assign, free.ruleFor name]
        rfl
    | nested name shape =>
      obtain ⟨part, hpart, rfl⟩ := gives_nested hpresent h
      exact ⟨part, .nested hpresent hpart, rfl⟩

/-- After all fields, what a field yields is what stands under its name. -/
theorem exists_yield_of_gives_all {fields : List Field} {field : Field} (free : scope.SetterFree)
    (nodup : (fields.map Field.name).Nodup) (declared : field ∈ fields)
    (h : Gives (evaluateAll scope members {} fields) result) :
    ∃ part, field.Yields scope members part ∧
      Members.get? field.name result.valid = part.valid ∧
      Members.get? field.name result.errors = part.errors := by
  obtain ⟨before, after, hfield, hbefore, hafter⟩ := exists_turn_of_gives_all nodup declared h
  obtain ⟨part, hpart, rfl⟩ := exists_yield_of_gives free hfield
  refine ⟨part, hpart, ?_, ?_⟩
  -- The fields in front and behind have other names, so what the draft has there is from this
  -- one.
  · rw [hafter.valid free, Draft.get?_valid_splice, hbefore.valid free]
    exact Option.or_none
  · rw [hafter.errors, Draft.get?_errors_splice, hbefore.errors]
    exact Option.or_none

/-! ### The account of an object -/

/-- How what is kept and what failed of an object share its declared fields. -/
structure Accounted (scope : Validator) (fields : List Field) (members kept failed : Members) :
    Prop where
  /-- A leaf is in one of the trees and not in the other. It is kept, as it is, exactly if there
  is a value that passes its rule. -/
  leaf : ∀ name, Field.leaf name ∈ fields →
    (name ∈ kept.keys ↔ name ∉ failed.keys) ∧
      ∀ value, Members.get? name kept = some value ↔
        Members.get? name members = some value ∧ value ≠ .null ∧
          (scope.ruleFor name).check value = none
  /-- A structured field is in one of the trees. It is kept exactly if its value is the container
  that its shape asks for, and it is in both trees exactly if something inside failed then. -/
  structured : ∀ name shape, Field.nested name shape ∈ fields →
    (name ∈ kept.keys ∨ name ∈ failed.keys) ∧
      (name ∈ kept.keys ↔
        ∃ value, Members.get? name members = some value ∧ value.kind = shape.kind) ∧
      (name ∈ kept.keys ∧ name ∈ failed.keys ↔
        ∃ value, Members.get? name members = some value ∧ value.kind = shape.kind ∧
          shape.conforms (scope.scopeFor name) value = false)
  /-- There are no other keys. -/
  declared : ∀ name, name ∈ kept.keys ∨ name ∈ failed.keys → name ∈ fields.map Field.name

/-- What a leaf yields is a value that passes, or a message. -/
theorem Yields.leaf {name : String} {part : Outcome}
    (yields : (Field.leaf name).Yields scope members part) :
    (part.valid.isSome = true ↔ ¬part.errors.isSome = true) ∧
      ∀ value, part.valid = some value ↔
        Members.get? name members = some value ∧ value ≠ .null ∧
          (scope.ruleFor name).check value = none := by
  -- Missing, refused or passed. In the first two cases no value can be there and pass.
  cases yields with
  | absent absent message =>
    refine ⟨⟨nofun, fun h => absurd rfl h⟩, fun value => ⟨nofun, ?_⟩⟩
    rintro ⟨hget, hne, -⟩
    have present := Members.present?_eq_some_iff.mpr ⟨hget, hne⟩
    rw [name_leaf] at absent
    rw [absent] at present
    cases present
  | @failed _ message found present check =>
    refine ⟨⟨nofun, fun h => absurd rfl h⟩, fun value => ⟨nofun, ?_⟩⟩
    rintro ⟨hget, hne, hpasses⟩
    have hsame := Members.present?_eq_some_iff.mpr ⟨hget, hne⟩
    rw [present] at hsame
    cases hsame
    rw [check] at hpasses
    cases hpasses
  | @passed _ found present check =>
    obtain ⟨hget, hne⟩ := Members.present?_eq_some_iff.mp present
    refine ⟨⟨fun _ => nofun, fun _ => rfl⟩, fun value => ⟨?_, ?_⟩⟩
    · rintro ⟨⟩
      exact ⟨hget, hne, check⟩
    · rintro ⟨hvalue, -, -⟩
      rw [hget] at hvalue
      exact hvalue

/-- What a structured field yields depends on the kind of its value, and on what is inside. -/
theorem Yields.structured {name : String} {shape : Shape} {part : Outcome}
    (yields : (Field.nested name shape).Yields scope members part) :
    (part.valid.isSome = true ∨ part.errors.isSome = true) ∧
      (part.valid.isSome = true ↔
        ∃ value, Members.get? name members = some value ∧ value.kind = shape.kind) ∧
      (part.valid.isSome = true ∧ part.errors.isSome = true ↔
        ∃ value, Members.get? name members = some value ∧ value.kind = shape.kind ∧
          shape.conforms (scope.scopeFor name) value = false) := by
  by_cases hright : ∃ value, Members.get? name members = some value ∧ value.kind = shape.kind
  · obtain ⟨value, hget, hkind⟩ := hright
    -- A container is not null, so it is what was evaluated.
    have hne : value ≠ .null := fun hnull => shape.kind_null_ne (hnull ▸ hkind)
    have hpresent := Members.present?_eq_some_iff.mpr ⟨hget, hne⟩
    have hgives : Gives (shape.evaluate (scope.scopeFor name) value) part := by
      cases yields with
      | absent absent _ =>
        rw [name_nested, hpresent] at absent
        cases absent
      | nested present gives =>
        rw [hpresent] at present
        cases present
        exact gives
    obtain ⟨tree, htree, -⟩ := Shape.exists_valid_of_gives hkind hgives
    have hfails : part.errors.isSome = true ↔
        shape.conforms (scope.scopeFor name) value = false := by
      rw [← shape.isValid_of_gives hgives]
      unfold Outcome.isValid
      cases part.errors <;> simp
    rw [htree, hfails]
    refine ⟨.inl rfl, ⟨fun _ => ⟨value, hget, hkind⟩, fun _ => rfl⟩, ?_, ?_⟩
    · rintro ⟨-, hconforms⟩
      exact ⟨value, hget, hkind, hconforms⟩
    · rintro ⟨other, hother, -, hconforms⟩
      rw [hget] at hother
      cases hother
      exact ⟨rfl, hconforms⟩
  · -- Without a value, or with one of the wrong kind, there is a message and nothing is kept.
    have hmessage : ∃ message, part = .failure message := by
      cases yields with
      | absent _ message => exact ⟨message, rfl⟩
      | nested present gives =>
        have hget := (Members.present?_eq_some_iff.mp present).1
        exact Shape.gives_of_kind_ne (fun hkind => hright ⟨_, hget, hkind⟩) gives
    obtain ⟨message, rfl⟩ := hmessage
    refine ⟨.inr rfl, ⟨nofun, fun h => absurd h hright⟩, ?_, ?_⟩
    · rintro ⟨hvalid, -⟩
      cases hvalid
    · rintro ⟨value, hget, hkind, -⟩
      exact absurd ⟨value, hget, hkind⟩ hright

/-- All fields of an object are accounted for. -/
theorem accounted_of_gives_all {fields : List Field} (free : scope.SetterFree)
    (nodup : (fields.map Field.name).Nodup)
    (h : Gives (evaluateAll scope members {} fields) result) :
    Accounted scope fields members result.valid result.errors where
  leaf name hdeclared := by
    obtain ⟨part, hpart, hvalid, herrors⟩ := exists_yield_of_gives_all free nodup hdeclared h
    rw [name_leaf] at hvalid herrors
    rw [Members.mem_keys_iff, Members.mem_keys_iff, hvalid, herrors]
    exact hpart.leaf
  structured name shape hdeclared := by
    obtain ⟨part, hpart, hvalid, herrors⟩ := exists_yield_of_gives_all free nodup hdeclared h
    rw [name_nested] at hvalid herrors
    rw [Members.mem_keys_iff, Members.mem_keys_iff, hvalid, herrors]
    exact hpart.structured
  declared name hkey := by
    -- No field writes under another name, and the draft is empty at first.
    by_contra hname
    have hkeeps := keeps_of_gives_all hname h
    rw [Members.mem_keys_iff, Members.mem_keys_iff, hkeeps.valid free, hkeeps.errors] at hkey
    rcases hkey with hkey | hkey <;> cases hkey

end Field

/-- An object has both trees, and they account for its fields. -/
theorem Shape.accounted_of_gives {scope : Validator} {fields : List Field} {members : Members}
    {outcome : Outcome} (free : scope.SetterFree) (nodup : (fields.map Field.name).Nodup)
    (h : Gives (Shape.evaluate scope (.object members) (.object fields)) outcome) :
    ∃ kept failed : Members, outcome.valid = some (.object kept) ∧
      outcome.errors = (if failed.isEmpty then none else some (.object failed)) ∧
      Field.Accounted scope fields members kept failed := by
  obtain ⟨draft, hfields, rfl⟩ := Shape.gives_object h
  exact ⟨draft.valid, draft.errors, rfl, rfl, Field.accounted_of_gives_all free nodup hfields⟩

/-! ### Along the paths of a document -/

namespace Position

/-- A position with an ordered value and a shape without repeated names, in the scope of a
validator without setters. -/
structure Plain (position : Position) : Prop where
  free : position.scope.NoSetters
  distinct : position.shape.DistinctNames
  ordered : position.value.isOrdered = true

/-- What is inside a plain position is plain. -/
theorem Plain.inside {position child : Position} {step : PathStep} (plain : position.Plain)
    (inside : Inside step position child) : child.Plain where
  free other uses := plain.free other (inside.uses uses)
  distinct := inside.distinctNames plain.distinct
  ordered := by
    have ordered := plain.ordered
    cases inside with
    | field _ present =>
      have hmem := Members.mem_of_get? (Members.present?_eq_some_iff.mp present).1
      exact (Json.isOrdered_object.mp ordered).2 _ hmem
    | index item => exact Json.isOrdered_array.mp ordered _ (List.mem_of_getElem? item)

/-- At the pointer of a path stand the two trees of the value there, if something of it passes. -/
theorem Plain.exists_part {validator : Validator} {shape : Shape} {document : Json}
    {outcome : Outcome} {path : FieldPath} {last : Position}
    (plain : Plain ⟨validator, shape, document⟩)
    (gives : Gives ⟨validator, shape, document⟩ outcome)
    (hpath : at? ⟨validator, shape, document⟩ path = some last) :
    ∃ part, last.Gives part ∧ last.Plain ∧ outcome.errorAt? path.pointer.text = part.errors ∧
      ∀ tree, part.valid = some tree → outcome.validAt? path.pointer.text = some tree := by
  obtain ⟨part, hpart, herrors, hvalid⟩ := Position.exists_part hpath plain.distinct gives
  have hlast := holds_of_at? (fun inside plain => plain.inside inside) hpath plain
  refine ⟨part, hpart, hlast, ?_, fun tree htree => ?_⟩
  · unfold Outcome.errorAt?
    simp only [Json.atPointer?_text]
    exact herrors
  · -- Where something passes, the slot of an array holds it as the key of an object does.
    have hslot : part.slot path.getLast? = some tree := by
      unfold Outcome.slot Outcome.validTree
      rw [htree]
      split <;> rfl
    unfold Outcome.validAt?
    simp only [Json.atPointer?_text]
    rw [← hslot]
    exact hvalid plain.free

end Position

namespace Validator

/-- What passed of a document is the document pruned, and the two trees of an outcome account for
all that its shape declares. -/
structure Prunes (validator : Validator) (shape : Shape) (document valid : Json)
    (outcome : Outcome) : Prop where
  /-- The tree as a whole is what is left of the document. -/
  tree : shape.pruned validator document = some valid
  /-- At every object along the shape the declared fields are accounted for. -/
  objects : ∀ (path : FieldPath) (scope : Validator) (fields : List Field) (members : Members),
    Position.at? ⟨validator, shape, document⟩ path =
        some ⟨scope, .object fields, .object members⟩ →
      ∃ kept failed : Members,
        outcome.validAt? path.pointer.text = some (.object kept) ∧
        outcome.errorAt? path.pointer.text =
          (if failed.isEmpty then none else some (.object failed)) ∧
        Field.Accounted scope fields members kept failed
  /-- Every array along the shape has a slot for each item, with what is left of the item, or with
  null exactly if the item is of the wrong kind. -/
  arrays : ∀ (path : FieldPath) (scope : Validator) (element : Shape) (items : List Json),
    Position.at? ⟨validator, shape, document⟩ path =
        some ⟨scope, .arrayOf element, .array items⟩ →
      ∃ slots : List Json,
        outcome.validAt? path.pointer.text = some (.array slots) ∧
        slots.length = items.length ∧
        ∀ (index : Nat) (item slot : Json), items[index]? = some item →
          slots[index]? = some slot →
            slot = (element.pruned scope item).getD .null ∧
              (slot = .null ↔ item.kind ≠ element.kind)
  /-- Where nothing failed, only what is not declared is gone. -/
  whole : outcome.isValid = true → valid = shape.restrict document

/-- A validator without setters prunes a document to what passes. Every document read from a text
has its keys in order (`Json.isOrdered_of_read?`). -/
theorem prunes_of_answer {validator : Validator} {source : String} {limit : Nat} {shape : Shape}
    {document valid : Json} {store : Store} {outcome : Outcome} (free : validator.NoSetters)
    (parsed : Shape.parse source limit = .ok shape) (ordered : document.isOrdered = true)
    (answered : (validator.validateShape shape document).answer store = .ok outcome)
    (passed : outcome.valid = some valid) : Prunes validator shape document valid outcome := by
  have distinct := (Shape.wellFormed_of_parse parsed).1.distinct
  have gives := gives_of_answer answered
  have plain : Position.Plain ⟨validator, shape, document⟩ := ⟨free, distinct, ordered⟩
  have htree : shape.pruned validator document = some valid := by
    rw [← Shape.valid_of_gives free distinct ordered gives, passed]
  refine ⟨htree, ?_, ?_, fun hvalid => ?_⟩
  · intro path scope fields members hpath
    obtain ⟨part, hpart, hplain, herrors, hkept⟩ := plain.exists_part gives hpath
    obtain ⟨kept, failed, hvalid, hfailed, haccounted⟩ :=
      Shape.accounted_of_gives (hplain.free scope (.itself scope)) hplain.distinct.1 hpart
    exact ⟨kept, failed, hkept _ hvalid, herrors.trans hfailed, haccounted⟩
  · intro path scope element items hpath
    obtain ⟨part, hpart, hplain, -, hkept⟩ := plain.exists_part gives hpath
    -- The array there is the pruned array, which has its slots item by item.
    have hslots := hkept _ (Shape.valid_of_gives hplain.free hplain.distinct hplain.ordered hpart)
    refine ⟨_, hslots, List.length_map .., fun index item slot hitem hslot => ?_⟩
    rw [List.getElem?_map, hitem] at hslot
    cases hslot
    exact ⟨rfl, element.getD_pruned_eq_null_iff⟩
  · rw [shape.isValid_of_gives gives] at hvalid
    rw [shape.pruned_of_conforms ordered hvalid] at htree
    exact (Option.some.inj htree).symm

/-- A validator that only tests has no setters. -/
theorem noSetters_refusing (name : String) : (refusing name).NoSetters := by
  refine forall_uses_iff.mpr ⟨fun key rule entry => ?_, fun key inner entry => ?_⟩
  · have hentry : (if "name" = key then some (Entry.rule (.ofTest _)) else none) =
      some (.rule rule) := entry
    split at hentry <;> cases hentry
    rfl
  · have hentry : (if "name" = key then some (Entry.rule (.ofTest _)) else none) =
      some (.nested inner) := entry
    split at hentry <;> cases hentry

/-- A leaf that is a container itself, a null, keys that are not declared, and an array with an
item that passes, one that fails inside a nested validator and one of the wrong kind. -/
theorem prunes_pets :
    let owner : Validator :=
      { (default : Validator) with schema := .ofList [("pets", .nested (.refusing "lace"))] }
    let shape : Shape := .object [.leaf "pets", .leaf "name", .leaf "note",
      .nested "friends" (.object [.nested "pets" (.arrayOf (.object [.leaf "name"]))])]
    let document : Json := .object [
      ("age", .nat 3),
      ("friends", .object [("name", .string "ann"), ("pets", .array [
        .object [("age", .nat 1), ("name", .string "roojoo")],
        .object [("name", .string "lace")], .string "hawk"])]),
      ("name", .object [("first", .string "bo"), ("last", .null)]),
      ("note", .null)]
    let valid : Json := .object [
      ("friends", .object [("pets", .array [
        .object [("name", .string "roojoo")], .object [], .null])]),
      ("name", .object [("first", .string "bo"), ("last", .null)])]
    let required : Json := .string "This information is required"
    let outcome : Outcome := ⟨some valid, some (.object [
      ("friends", .object [("pets", .array [.null, .object [("name", .string "")], required])]),
      ("note", required), ("pets", required)])⟩
    owner.NoSetters ∧
      Shape.parse "{pets,name,note,friends{pets[{name}]}}" 4 = .ok shape ∧
      document.isOrdered = true ∧
      (owner.validateShape shape document).answer {} = .ok outcome ∧
      outcome.valid = some valid ∧ Prunes owner shape document valid outcome := by
  intro owner shape document valid required outcome
  -- The schema has one entry, which is a validator without setters.
  have free : owner.NoSetters := by
    refine forall_uses_iff.mpr ⟨fun key rule entry => ?_, fun key inner entry => ?_⟩
    · have hentry : (if "pets" = key then some (Entry.nested (refusing "lace")) else none) =
        some (.rule rule) := entry
      split at hentry <;> cases hentry
    · have hentry : (if "pets" = key then some (Entry.nested (refusing "lace")) else none) =
        some (.nested inner) := entry
      split at hentry <;> cases hentry
      exact noSetters_refusing "lace"
  have parsed : Shape.parse "{pets,name,note,friends{pets[{name}]}}" 4 = .ok shape := by
    decide +kernel
  have ordered : document.isOrdered = true := by decide +kernel
  have answered : (owner.validateShape shape document).answer {} = .ok outcome := by
    decide +kernel
  exact ⟨free, parsed, ordered, answered, rfl, prunes_of_answer free parsed ordered answered rfl⟩

end Validator

end DocShape
