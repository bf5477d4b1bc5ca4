import DocShape.Rule.Checks
import DocShape.Proofs.Validator.Parallel

/-!
# `DocShape.Proofs.Validator.Scope`: entries that do not apply

A validator looks at some fields of a shape itself, and hands others over to the validators that
its schema names. `Shape.inScope` lists the first. What a schema says about a name is only asked
for at those fields, and only one half of it each time: at a leaf field the rule, and at a
structured one the validator (`Field.Agreed`). So two schemas that agree on the fields in scope do
the same, whatever else is in them (`Validator.validateShape_same_in_scope`).

`Shape.evaluate_parallel_of_agreed` goes along the shape. Below a field that is handed over there
is only one validator, and its evaluation is parallel to itself (`compositional_parallel`).
-/

set_option autoImplicit false

namespace DocShape

/-! ### Fields in scope -/

/-- The validator that a structured field is handed to, if one was named. -/
def Resolution.delegate? : Resolution → Option Validator
  | nested validator => some validator
  | _ => none

/-- Where no rule is named the default rule applies. -/
theorem Resolution.leafRule_of_isDefaultRule {resolution : Resolution}
    (h : resolution.isDefaultRule = true) : resolution.leafRule = .passthrough := by
  cases resolution with
  | rule => cases h
  | default => rfl
  | nested => rfl

mutual

/-- The fields of a shape that a validator looks at itself, at any depth. What is below a field
that its schema hands to another validator is not among them. The field itself is. -/
def Shape.inScope (scope : Validator) : Shape → List Field
  | .object fields => Field.allInScope scope fields
  | .emptyArray => []
  | .arrayOf element => element.inScope scope

/-- A field with those below it that the validator looks at itself. -/
def Field.inScope (scope : Validator) : Field → List Field
  | .leaf name => [.leaf name]
  | .nested name shape =>
    .nested name shape ::
      match (scope.resolve name).delegate? with
      | some _ => []
      | none => shape.inScope scope

/-- Fields with those below them that the validator looks at itself. -/
def Field.allInScope (scope : Validator) : List Field → List Field
  | [] => []
  | field :: rest => field.inScope scope ++ Field.allInScope scope rest

end

/-- The schemas of two validators agree on a field: for a leaf field on its rule, with its test
and its setter, and for a structured field on the validator that it is handed to, if there is
one. -/
def Field.Agreed (validator other : Validator) : Field → Prop
  | .leaf name => (validator.resolve name).leafRule = (other.resolve name).leafRule
  | .nested name _ => (validator.resolve name).delegate? = (other.resolve name).delegate?

/-- The field stays with the validator unless its schema names another. -/
theorem Validator.scopeFor_eq_getD (validator : Validator) (name : String) :
    validator.scopeFor name = (validator.resolve name).delegate?.getD validator := by
  rw [validator.scopeFor_eq]
  cases validator.resolve name <;> rfl

/-! ### Validators that agree -/

open Evaluation

mutual

/-- Validators that agree on the fields in scope evaluate a value in parallel. -/
theorem Shape.evaluate_parallel_of_agreed (shape : Shape) {scope other : Validator}
    (catalog : scope.catalog = other.catalog)
    (agreed : ∀ field ∈ shape.inScope scope, field.Agreed scope other) (value : Json) :
    Parallel Eq (shape.evaluate scope value) (shape.evaluate other value) := by
  by_cases hkind : value.kind = shape.kind
  · match shape with
    | .object fields =>
      obtain ⟨members, rfl⟩ := Json.exists_of_kind_object hkind
      have hfields := Field.evaluateAll_parallel_of_agreed fields catalog agreed members {}
      -- The drafts are equal, so the events that close the object have the same numbers.
      refine hfields.bind fun draft _ heq => ?_
      cases heq
      exact (Parallel.log _ _).bind fun _ _ _ => .pure rfl
    | .emptyArray =>
      obtain ⟨items, rfl⟩ := Json.exists_of_kind_array hkind
      cases items with
      | nil => exact .pure rfl
      | cons item rest => exact .giveUp (item :: rest).length
    | .arrayOf element =>
      obtain ⟨items, rfl⟩ := Json.exists_of_kind_array hkind
      cases items with
      | nil => exact .pure rfl
      | cons item rest =>
        have hitems := Parallel.eachItem
          (fun item => element.evaluate_parallel_of_agreed catalog agreed item) (item :: rest) 0
        refine hitems.bind fun outcomes _ heq => ?_
        rw [List.forall₂_eq_eq_eq] at heq
        cases heq
        exact (Parallel.log _ _).bind fun _ _ _ => .pure rfl
  · rw [Shape.evaluate_of_kind_ne hkind, Shape.evaluate_of_kind_ne hkind, catalog]
    exact compositional_parallel.refuse trivial shape.refusal

/-- Validators that agree on the fields in scope evaluate a field in parallel, whether it stays or
is handed over. -/
theorem Field.evaluate_parallel_of_agreed (field : Field) {scope other : Validator}
    (catalog : scope.catalog = other.catalog)
    (agreed : ∀ inner ∈ field.inScope scope, inner.Agreed scope other) (members : Members)
    (draft : Draft) :
    Parallel Eq (field.evaluate scope members draft) (field.evaluate other members draft) := by
  match field with
  | .leaf name =>
    rw [Field.evaluate_leaf, Field.evaluate_leaf, catalog]
    refine Parallel.inside (.field name) ?_
    cases Members.present? name members with
    | none => exact compositional_parallel.absent trivial draft name
    | some value =>
      have hrule : scope.ruleFor name = other.ruleFor name := by
        rw [← Validator.leafRule_resolve, ← Validator.leafRule_resolve]
        exact agreed (.leaf name) List.mem_cons_self
      exact leaf_parallel (congrArg Rule.test hrule) (by rw [hrule])
  | .nested name shape =>
    rw [Field.evaluate_nested, Field.evaluate_nested, catalog]
    refine Parallel.inside (.field name) ?_
    cases Members.present? name members with
    | none => exact compositional_parallel.absent trivial draft name
    | some value =>
      have hinner : Parallel Eq (shape.evaluate (scope.scopeFor name) value)
          (shape.evaluate (other.scopeFor name) value) := by
        have hdelegate : (scope.resolve name).delegate? = (other.resolve name).delegate? :=
          agreed (.nested name shape) List.mem_cons_self
        rw [scope.scopeFor_eq_getD, other.scopeFor_eq_getD, ← hdelegate]
        cases hnamed : (scope.resolve name).delegate? with
        | some inner =>
          -- From here on it is one validator, and nothing is known of the schemas below.
          exact compositional_parallel.evaluate shape (fun _ _ => trivial) value
        | none =>
          -- The field stays, so the fields below it are in scope as well.
          refine shape.evaluate_parallel_of_agreed catalog (fun inner hmem => ?_) value
          refine agreed inner (List.mem_cons_of_mem _ ?_)
          rwa [hnamed]
      have hhanded : Parallel
          (fun inner otherInner =>
            Parallel Eq (shape.evaluate inner value) (shape.evaluate otherInner value))
          (delegate scope name) (delegate other name) := delegate_parallel hinner
      refine hhanded.bind fun inner _ hparallel => hparallel.bind ?_
      rintro outcome _ rfl
      exact .pure rfl

/-- Validators that agree on the fields in scope evaluate fields in order in parallel. -/
theorem Field.evaluateAll_parallel_of_agreed (fields : List Field) {scope other : Validator}
    (catalog : scope.catalog = other.catalog)
    (agreed : ∀ inner ∈ Field.allInScope scope fields, inner.Agreed scope other)
    (members : Members) (draft : Draft) :
    Parallel Eq (Field.evaluateAll scope members draft fields)
      (Field.evaluateAll other members draft fields) := by
  match fields with
  | [] => exact .pure rfl
  | field :: rest =>
    obtain ⟨hfield, hrest⟩ := List.forall_mem_append.mp agreed
    refine (field.evaluate_parallel_of_agreed catalog hfield members draft).bind ?_
    rintro middle _ rfl
    exact Field.evaluateAll_parallel_of_agreed rest catalog hrest members middle

end

/-! ### Sessions that cannot be told apart -/

/-- Two sessions with the same answer, which make the same calls and leave the counters alike. -/
structure Session.SameRun {α : Type} (act other : Session α) (store otherStore : Store) :
    Prop where
  answer : act.answer store = other.answer otherStore
  calls : act.calls store = other.calls otherStore
  counters : (act.after store).counters = (other.after otherStore).counters

/-- Walks that end beside each other, with the same answer and the same notes, make sessions that
cannot be told apart. -/
theorem Session.sameRun_of_run {act other : Session (Except ValidateError Outcome)}
    {store otherStore : Store} {answer : Except ValidateError Outcome}
    {after otherAfter : Walk} {notes : List Note}
    (hrun : act.run store = (answer, (store.follow after).write notes))
    (hother : other.run otherStore = (answer, (otherStore.follow otherAfter).write notes))
    (beside : after.Beside otherAfter) : act.SameRun other store otherStore := by
  refine ⟨?_, calls_eq_of_run hrun hother beside rfl, ?_⟩
  · show (act.run store).1 = (other.run otherStore).1
    rw [hrun, hother]
  · show (act.run store).2.counters = (other.run otherStore).2.counters
    rw [hrun, hother]
    exact beside.counters

namespace Validator

/-- Documents of a shape do not tell the validators apart. From counters that stand alike both
give the same answer, and on the way they ask for the same messages and make the same tests. -/
def SameOn (validator other : Validator) (shape : Shape) : Prop :=
  ∀ (document : Json) (store otherStore : Store), store.counters = otherStore.counters →
    (validator.validateShape shape document).SameRun (other.validateShape shape document)
      store otherStore

variable {validator other : Validator} {shape : Shape}

/-- Validators that agree on the fields in scope of a shape do the same along it. -/
theorem sameOn_of_agreed (catalog : validator.catalog = other.catalog)
    (agreed : ∀ field ∈ shape.inScope validator, field.Agreed validator other) :
    validator.SameOn other shape := by
  intro document store otherStore counters
  have hparallel :=
    shape.evaluate_parallel_of_agreed catalog agreed document _ _ (.start counters)
  have hrun := validator.run_validateShape shape document store
  have hother := other.run_validateShape shape document otherStore
  generalize (shape.evaluate validator document).run (Walk.start store.counters) = ended
    at hparallel hrun
  generalize (shape.evaluate other document).run (Walk.start otherStore.counters) = otherEnded
    at hparallel hother
  cases hparallel with
  | ok results beside =>
    cases results
    exact Session.sameRun_of_run hrun hother beside
  | @error after otherAfter error beside =>
    -- An error ends the walk, and nothing is noted after it.
    have hafter := (store.follow after).write_nil
    have hotherAfter := (otherStore.follow otherAfter).write_nil
    exact Session.sameRun_of_run (hrun.trans (congrArg _ hafter.symm))
      (hother.trans (congrArg _ hotherAfter.symm)) beside

/-! ### Changes of a schema -/

/-- What two schemas say of a name makes no difference to the fields in scope. -/
inductive IdleUnder (validator other : Validator) (shape : Shape) (name : String) : Prop where
  /-- Both have the same entry or none. -/
  | same (entry : OrderedMap.get? validator.schema name = OrderedMap.get? other.schema name)
  /-- Only leaf fields have the name, and neither schema names a rule. -/
  | leafOnly (only : ∀ inner, Field.nested name inner ∉ shape.inScope validator)
    (noRule : (validator.resolve name).isDefaultRule = true)
    (otherNoRule : (other.resolve name).isDefaultRule = true)
  /-- Only structured fields have the name, and neither schema names a validator. -/
  | structuredOnly (only : Field.leaf name ∉ shape.inScope validator)
    (stays : (validator.resolve name).delegate? = none)
    (otherStays : (other.resolve name).delegate? = none)
  /-- No field has the name. -/
  | undeclared (nowhere : ∀ field ∈ shape.inScope validator, field.name ≠ name)

/-- A name with the same entry resolves to the same thing. -/
theorem resolve_eq_of_get? {name : String}
    (entry : OrderedMap.get? validator.schema name = OrderedMap.get? other.schema name) :
    validator.resolve name = other.resolve name := by
  unfold resolve Schema.resolve
  rw [entry]

/-- Schemas that differ only where it makes no difference agree on the fields in scope. -/
theorem agreed_of_idleUnder {field : Field} (hmem : field ∈ shape.inScope validator)
    (idle : validator.IdleUnder other shape field.name) : field.Agreed validator other := by
  -- What is idle under a name is never asked for by a field in scope of that name.
  cases idle with
  | same entry =>
    have hresolve := resolve_eq_of_get? entry
    cases field with
    | leaf name => exact congrArg Resolution.leafRule hresolve
    | nested name inner => exact congrArg Resolution.delegate? hresolve
  | leafOnly only noRule otherNoRule =>
    cases field with
    | leaf name =>
      have hrule := Resolution.leafRule_of_isDefaultRule noRule
      exact hrule.trans (Resolution.leafRule_of_isDefaultRule otherNoRule).symm
    | nested name inner => exact absurd hmem (only inner)
  | structuredOnly only stays otherStays =>
    cases field with
    | leaf name => exact absurd hmem only
    | nested name inner => exact stays.trans otherStays.symm
  | undeclared nowhere => exact absurd rfl (nowhere field hmem)

/-- Entries that do not apply have no effect. Validators with one catalog cannot be told apart if
their schemas agree on the fields that the first looks at itself. So it makes no difference which
validator, if any, is named for leaf fields, which rule for structured fields, what is said of
names that no field has, and in which order the entries came in. -/
theorem validateShape_same_in_scope (catalog : validator.catalog = other.catalog) :
    ((∀ field ∈ shape.inScope validator, field.Agreed validator other) →
      validator.SameOn other shape) ∧
    ((∀ name, validator.IdleUnder other shape name) → validator.SameOn other shape) ∧
    ∀ entries others : List (String × Entry), entries.Perm others →
      (entries.map Prod.fst).Nodup → validator.schema = .ofList entries →
      other.schema = .ofList others → validator.SameOn other shape := by
  have hidle (idle : ∀ name, validator.IdleUnder other shape name) :
      validator.SameOn other shape :=
    sameOn_of_agreed catalog fun field hmem => agreed_of_idleUnder hmem (idle field.name)
  refine ⟨sameOn_of_agreed catalog, hidle, ?_⟩
  intro entries others perm nodup hschema hother
  refine hidle fun name => .same ?_
  rw [hschema, hother]
  exact OrderedMap.get?_ofList_of_perm perm nodup name

/-- The second schema names no validator for a leaf, a rule for a structured field and one for a
field that is nowhere. Pets have a note with a shape and a home without one, but their fields are
out of scope. The third schema has the entries of the first in another order. -/
theorem validateShape_same_in_scope_owner :
    let short : Entry := .rule (.ofTest (Check.minLength "too short" 3))
    let pets : Validator :=
      { (default : Validator) with
        schema := ⟨[("name", short)]⟩, catalog := .numbered (Catalog.counting "lost ") 1 }
    let owner : Validator :=
      { (default : Validator) with
        schema := ⟨[("name", short), ("pets", .nested pets), ("note", .nested pets)]⟩
        catalog := .numbered (Catalog.counting "missing ") 0 }
    let other : Validator :=
      { owner with
        schema := ⟨[("color", short), ("home", short), ("pets", .nested pets), ("name", short)]⟩ }
    let sorted : Validator :=
      { owner with
        schema := ⟨[("name", short), ("note", .nested pets), ("pets", .nested pets)]⟩ }
    let home : Shape := .object [.leaf "name", .nested "rooms" .emptyArray]
    let pet : Shape := .object [.leaf "name", .nested "note" .emptyArray, .leaf "home"]
    let shape : Shape :=
      .object [.leaf "note", .nested "home" home, .nested "pets" (.arrayOf pet)]
    owner.catalog = other.catalog ∧ (∀ field ∈ shape.inScope owner, field.Agreed owner other) ∧
      (∀ name, owner.IdleUnder other shape name) ∧ owner.SameOn other shape ∧
      owner.SameOn sorted shape := by
  intro short pets owner other sorted home pet shape
  have hscope : shape.inScope owner = [.leaf "note", .nested "home" home, .leaf "name",
      .nested "rooms" .emptyArray, .nested "pets" (.arrayOf pet)] := rfl
  have idle (name : String) : owner.IdleUnder other shape name := by
    by_cases hnote : "note" = name
    · subst hnote
      exact .leafOnly (by simp [hscope]) rfl rfl
    by_cases hhome : "home" = name
    · subst hhome
      exact .structuredOnly (by simp [hscope]) rfl rfl
    by_cases hcolor : "color" = name
    · subst hcolor
      exact .undeclared (by simp [hscope])
    -- The names that are left have the same entry in both.
    refine .same ?_
    by_cases hname : "name" = name
    · subst hname
      rfl
    simp only [OrderedMap.get?, owner, other, OrderedMap.find?, if_neg hnote, if_neg hhome,
      if_neg hcolor, if_neg hname]
  have agreed : ∀ field ∈ shape.inScope owner, field.Agreed owner other := fun field hmem =>
    agreed_of_idleUnder hmem (idle field.name)
  obtain ⟨hsame, -, -⟩ := @validateShape_same_in_scope owner other shape rfl
  obtain ⟨-, -, horder⟩ := @validateShape_same_in_scope owner sorted shape rfl
  have hsorted := horder owner.schema.entries sorted.schema.entries (.cons _ (.swap ..))
    (by decide) rfl rfl
  exact ⟨rfl, agreed, idle, hsame agreed, hsorted⟩

end Validator

end DocShape
