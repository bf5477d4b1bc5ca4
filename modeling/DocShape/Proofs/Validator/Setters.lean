import DocShape.Rule.Checks
import DocShape.Rule.Setters
import DocShape.Proofs.Validator.Parallel

/-!
# `DocShape.Proofs.Validator.Setters`: what setters have no hand in

A setter may write anything into what passed of an object, under any name. Nothing that is read
later comes from there. `Validator.errors_eq_of_sameTests` compares two validators that differ at
most in the setters of their rules, at any depth: they give the same error, or outcomes with the
same tree of errors, and on the way they ask for the same messages and put the same values to the
same tests.

`Evaluation.Parallel` says so of a part of a walk. Drafts have to agree on the errors so far only
(`Draft.SameErrors`). Events may differ: one of them gives the number of keys that passed.
-/

set_option autoImplicit false

namespace DocShape

mutual

/-- Two names resolve to rules with the same test, the default rule among them, or to validators
that differ in setters at most. -/
inductive Resolution.SameTests : Resolution → Resolution → Prop where
  | rule {resolution other : Resolution} (leaf : resolution.isNested = false)
    (otherLeaf : other.isNested = false)
    (test : resolution.leafRule.test = other.leafRule.test) :
    Resolution.SameTests resolution other
  | nested {validator other : Validator} (same : Validator.SameTests validator other) :
    Resolution.SameTests (.nested validator) (.nested other)

/-- Two validators differ at most in the setters of their rules and of validators inside, and in
their settings. A rule may be there for its setter alone. -/
inductive Validator.SameTests : Validator → Validator → Prop where
  | setters {validator other : Validator} (catalog : validator.catalog = other.catalog)
    (same : ∀ name, Resolution.SameTests (validator.resolve name) (other.resolve name)) :
    Validator.SameTests validator other

end

namespace Validator.SameTests

variable {validator other : Validator} (same : validator.SameTests other)
include same

/-- They have the same catalog. -/
theorem catalog_eq : validator.catalog = other.catalog := by
  cases same with
  | setters catalog _ => exact catalog

/-- A name resolves to the same kind of thing for both. -/
theorem resolve (name : String) : (validator.resolve name).SameTests (other.resolve name) := by
  cases same with
  | setters _ same => exact same name

/-- A leaf field has the same test for both. -/
theorem test_ruleFor (name : String) :
    (validator.ruleFor name).test = (other.ruleFor name).test := by
  have hresolve := same.resolve name
  rw [← Validator.leafRule_resolve, ← Validator.leafRule_resolve]
  generalize validator.resolve name = resolution at hresolve ⊢
  generalize other.resolve name = otherResolution at hresolve ⊢
  cases hresolve with
  | rule _ _ test => exact test
  | nested _ => rfl

/-- A structured field goes to validators that differ in setters at most. -/
theorem scopeFor (name : String) :
    (validator.scopeFor name).SameTests (other.scopeFor name) := by
  have hresolve := same.resolve name
  rw [validator.scopeFor_eq, other.scopeFor_eq]
  generalize validator.resolve name = resolution at hresolve ⊢
  generalize other.resolve name = otherResolution at hresolve ⊢
  cases hresolve with
  | rule leaf otherLeaf _ =>
    -- Neither names a validator, so both stay.
    cases resolution <;> cases otherResolution <;> first | exact same | contradiction
  | nested inner => exact inner

end Validator.SameTests

/-! ### Drafts and outcomes -/

/-- The same failed so far. -/
def Draft.SameErrors (draft other : Draft) : Prop :=
  draft.errors = other.errors

/-- The same failed, and something passed of both or of neither. -/
structure Outcome.SameErrors (outcome other : Outcome) : Prop where
  errors : outcome.errors = other.errors
  valid : outcome.valid.isSome = other.valid.isSome

namespace Draft.SameErrors

variable {draft other : Draft} (same : draft.SameErrors other)
include same

/-- A failure adds the same error to both drafts. -/
theorem fail (name message : String) :
    (draft.fail name message).SameErrors (other.fail name message) :=
  congrArg (Members.insert name (.string message)) same

/-- Whether a leaf field fails is up to the test of its rule. -/
theorem judge {rule otherRule : Rule} (test : rule.test = otherRule.test) (field : FieldContext) :
    (draft.judge rule field).SameErrors (other.judge otherRule field) := by
  have hcheck : rule.check field.value = otherRule.check field.value := by
    unfold Rule.check
    rw [test]
  unfold Draft.judge
  rw [hcheck]
  cases otherRule.check field.value with
  | some message => exact same.fail field.name message
  | none => exact same

/-- Outcomes with the same errors add them to both drafts. -/
theorem splice (name : String) {outcome otherOutcome : Outcome}
    (outcomes : outcome.SameErrors otherOutcome) :
    (draft.splice name outcome).SameErrors (other.splice name otherOutcome) := by
  unfold Draft.SameErrors Draft.splice
  rw [outcomes.errors, same]

/-- Drafts with the same errors make outcomes with the same errors. -/
theorem outcome : draft.outcome.SameErrors other.outcome where
  errors := by
    unfold Draft.outcome Outcome.ofMembers
    rw [same]
  valid := rfl

end Draft.SameErrors

/-- Items with the same errors make arrays with the same errors. -/
theorem Outcome.SameErrors.ofItems {outcomes others : List Outcome}
    (h : List.Forall₂ Outcome.SameErrors outcomes others) :
    (Outcome.ofItems outcomes).SameErrors (Outcome.ofItems others) where
  errors := by
    have hmap : outcomes.map Outcome.errors = others.map Outcome.errors := by
      induction h with
      | nil => rfl
      | cons hfirst _ ih => rw [List.map_cons, List.map_cons, hfirst.errors, ih]
    -- Slots and the question whether any item failed are about the errors of the items alone.
    have hslots := congrArg (List.map fun errors => errors.getD Json.null) hmap
    have hany := congrArg (List.any · Option.isSome) hmap
    simp only [List.map_map, List.any_map] at hslots hany
    unfold Outcome.ofItems
    simp only [Function.comp_def] at hslots hany ⊢
    rw [hslots, hany]
  valid := rfl

namespace Evaluation.Parallel

/-- A value of the wrong kind is refused with the same message. -/
theorem refuse (catalog : Catalog) (event : FieldPath → Event) :
    Parallel Outcome.SameErrors (Evaluation.refuse catalog event)
      (Evaluation.refuse catalog event) := by
  refine (log event event).bind fun _ _ _ => (require catalog).bind fun message _ heq => ?_
  cases heq
  exact pure ⟨rfl, rfl⟩

/-- A missing value fails with the same message. -/
theorem absent (catalog : Catalog) {draft other : Draft} (same : draft.SameErrors other)
    (name : String) :
    Parallel Draft.SameErrors (do return draft.fail name (← Evaluation.require catalog))
      (do return other.fail name (← Evaluation.require catalog)) := by
  refine (require catalog).bind fun message _ heq => ?_
  cases heq
  exact pure (same.fail name message)

end Evaluation.Parallel

open Evaluation

mutual

/-- Validators that differ in setters at most evaluate a value in parallel. -/
theorem Shape.evaluate_parallel (shape : Shape) {scope other : Validator}
    (tests : scope.SameTests other) (value : Json) :
    Parallel Outcome.SameErrors (shape.evaluate scope value) (shape.evaluate other value) := by
  -- The drafts differ in what passed, and no later part looks at that.
  by_cases hkind : value.kind = shape.kind
  · match shape with
    | .object fields =>
      obtain ⟨members, rfl⟩ := Json.exists_of_kind_object hkind
      have hempty : Draft.SameErrors {} {} := rfl
      refine (Field.evaluateAll_parallel fields tests members hempty).bind fun _ _ same => ?_
      exact (Parallel.log _ _).bind fun _ _ _ => .pure same.outcome
    | .emptyArray =>
      obtain ⟨items, rfl⟩ := Json.exists_of_kind_array hkind
      cases items with
      | nil => exact .pure ⟨rfl, rfl⟩
      | cons item rest => exact .giveUp (item :: rest).length
    | .arrayOf element =>
      obtain ⟨items, rfl⟩ := Json.exists_of_kind_array hkind
      cases items with
      | nil => exact .pure ⟨rfl, rfl⟩
      | cons item rest =>
        have hitems := Parallel.eachItem (fun item => element.evaluate_parallel tests item)
          (item :: rest) 0
        refine hitems.bind fun outcomes _ houtcomes => ?_
        exact (Parallel.log _ _).bind fun _ _ _ => .pure (.ofItems houtcomes)
  · rw [Shape.evaluate_of_kind_ne hkind, Shape.evaluate_of_kind_ne hkind, tests.catalog_eq]
    exact .refuse other.catalog shape.refusal

/-- Validators that differ in setters at most evaluate a field in parallel. -/
theorem Field.evaluate_parallel (field : Field) {scope other : Validator}
    (tests : scope.SameTests other) (members : Members) {draft otherDraft : Draft}
    (same : draft.SameErrors otherDraft) :
    Parallel Draft.SameErrors (field.evaluate scope members draft)
      (field.evaluate other members otherDraft) := by
  match field with
  | .leaf name =>
    rw [Field.evaluate_leaf, Field.evaluate_leaf, tests.catalog_eq]
    refine Parallel.inside (.field name) ?_
    cases Members.present? name members with
    | none => exact .absent other.catalog same name
    | some value =>
      have test := tests.test_ruleFor name
      exact leaf_parallel test (same.judge test ⟨name, value⟩)
  | .nested name shape =>
    rw [Field.evaluate_nested, Field.evaluate_nested, tests.catalog_eq]
    refine Parallel.inside (.field name) ?_
    cases Members.present? name members with
    | none => exact .absent other.catalog same name
    | some value =>
      -- Whichever validators take over, they differ in setters at most as well.
      refine (delegate_parallel (tests.scopeFor name)).bind fun inner _ tests => ?_
      exact (shape.evaluate_parallel tests value).bind fun outcome _ outcomes =>
        .pure (same.splice name outcomes)

/-- Validators that differ in setters at most evaluate fields in order in parallel. -/
theorem Field.evaluateAll_parallel (fields : List Field) {scope other : Validator}
    (tests : scope.SameTests other) (members : Members) {draft otherDraft : Draft}
    (same : draft.SameErrors otherDraft) :
    Parallel Draft.SameErrors (Field.evaluateAll scope members draft fields)
      (Field.evaluateAll other members otherDraft fields) := by
  match fields with
  | [] => exact .pure same
  | field :: rest =>
    exact (field.evaluate_parallel tests members same).bind fun middle _ same =>
      Field.evaluateAll_parallel rest tests members same

end

/-- Two answers are the same error, or outcomes where the same failed and something passed for
both or for neither. -/
inductive Outcome.AnsweredAlike :
    Except ValidateError Outcome → Except ValidateError Outcome → Prop where
  | error (error : ValidateError) : AnsweredAlike (.error error) (.error error)
  | ok {outcome other : Outcome} (same : outcome.SameErrors other) :
    AnsweredAlike (.ok outcome) (.ok other)

namespace Session

/-- Two sessions that end alike, with the same calls on the way: the answers are the same error,
or outcomes that agree on what failed. -/
structure Alike (act other : Session (Except ValidateError Outcome)) (store otherStore : Store) :
    Prop where
  answers : Outcome.AnsweredAlike (act.answer store) (other.answer otherStore)
  calls : act.calls store = other.calls otherStore
  counters : (act.after store).counters = (other.after otherStore).counters

/-- Walks that end beside each other, with answers that match and the same calls, make sessions
alike. -/
theorem alike_of_run {act other : Session (Except ValidateError Outcome)}
    {store otherStore : Store} {answer otherAnswer : Except ValidateError Outcome}
    {after otherAfter : Walk} {notes otherNotes : List Note}
    (hrun : act.run store = (answer, (store.follow after).write notes))
    (hother : other.run otherStore =
      (otherAnswer, (otherStore.follow otherAfter).write otherNotes))
    (answers : Outcome.AnsweredAlike answer otherAnswer) (beside : after.Beside otherAfter)
    (hnotes : notes.filter Note.isCall = otherNotes.filter Note.isCall) :
    act.Alike other store otherStore where
  answers := by
    show Outcome.AnsweredAlike (act.run store).1 (other.run otherStore).1
    rw [hrun, hother]
    exact answers
  calls := calls_eq_of_run hrun hother beside hnotes
  counters := by
    show (act.run store).2.counters = (other.run otherStore).2.counters
    rw [hrun, hother]
    exact beside.counters

end Session

/-- Validators that differ in setters at most, with counters that stand alike, give the same error
or outcomes with the same errors, and something passes for both or for neither. On the way both
ask the same catalogs for the same messages and put the same values to the same tests, in the same
order, and afterwards the counters stand alike again. -/
theorem Validator.errors_eq_of_sameTests {validator other : Validator} {store otherStore : Store}
    (same : validator.SameTests other) (counters : store.counters = otherStore.counters)
    (shape : Shape) (document : Json) :
    (validator.validateShape shape document).Alike (other.validateShape shape document)
      store otherStore := by
  have hparallel := shape.evaluate_parallel same document _ _ (.start counters)
  have hrun := validator.run_validateShape shape document store
  have hother := other.run_validateShape shape document otherStore
  generalize (shape.evaluate validator document).run (Walk.start store.counters) = ended
    at hparallel hrun
  generalize (shape.evaluate other document).run (Walk.start otherStore.counters) = otherEnded
    at hparallel hother
  cases hparallel with
  | ok results beside => exact Session.alike_of_run hrun hother (.ok results) beside rfl
  | @error after otherAfter error beside =>
    -- An error ends the walk, and nothing is noted after it.
    have hafter := (store.follow after).write_nil
    have hotherAfter := (otherStore.follow otherAfter).write_nil
    exact Session.alike_of_run (hrun.trans (congrArg _ hafter.symm))
      (hother.trans (congrArg _ hotherAfter.symm)) (.error error) beside rfl

/-- The validators inside differ in setters too, and one of the setters throws everything away.
The field that comes twice in the shape is asked for twice. What passes is not the same in the
end. -/
theorem Validator.errors_eq_of_sameTests_clear :
    let short : Option Check := some (Check.minLength "too short" 3)
    let pets : Validator :=
      { (default : Validator) with
        schema := ⟨[("name", .rule ⟨short, some Setter.clear⟩)]⟩
        catalog := .numbered (Catalog.counting "lost ") 1 }
    let otherPets : Validator :=
      { pets with
        schema := ⟨[("name", .rule ⟨short, none⟩), ("tags", .rule ⟨none, some Setter.keys⟩)]⟩ }
    let owner : Validator :=
      { (default : Validator) with
        schema := ⟨[("pets", .nested pets), ("note", .rule ⟨short, some (Setter.push "pets")⟩)]⟩
        catalog := .numbered (Catalog.counting "missing ") 0 }
    let otherOwner : Validator :=
      { owner with
        schema := ⟨[("pets", .nested otherPets), ("note", .rule ⟨short, some Setter.skip⟩)]⟩ }
    let pet : Shape := .object [.leaf "name", .leaf "age", .leaf "tags", .leaf "age"]
    let shape : Shape := .object [.leaf "note", .nested "pets" (.arrayOf pet), .leaf "note"]
    let document : Json := .object [("note", .string "hello"),
      ("pets", .array [.object [("name", .string "Rex"), ("tags", .nat 3)], .nat 1])]
    let act := owner.validateShape shape document
    let otherAct := otherOwner.validateShape shape document
    owner.SameTests otherOwner ∧ act.Alike otherAct {} {} ∧
      act.answer {} ≠ otherAct.answer {} := by
  intro short pets otherPets owner otherOwner pet shape document act otherAct
  -- Name by name: the two that the schemas mention, and all others, which have no entry.
  have samePets : pets.SameTests otherPets := by
    refine .setters rfl fun name => ?_
    by_cases hname : "name" = name
    · subst hname
      exact .rule rfl rfl rfl
    by_cases htags : "tags" = name
    · subst htags
      exact .rule rfl rfl rfl
    simp only [Validator.resolve, Schema.resolve, OrderedMap.get?, pets, otherPets,
      OrderedMap.find?, if_neg hname, if_neg htags]
    exact .rule rfl rfl rfl
  have same : owner.SameTests otherOwner := by
    refine .setters rfl fun name => ?_
    by_cases hpets : "pets" = name
    · subst hpets
      exact .nested samePets
    by_cases hnote : "note" = name
    · subst hnote
      exact .rule rfl rfl rfl
    simp only [Validator.resolve, Schema.resolve, OrderedMap.get?, owner, otherOwner,
      OrderedMap.find?, if_neg hpets, if_neg hnote]
    exact .rule rfl rfl rfl
  exact ⟨same, errors_eq_of_sameTests same rfl shape document, by decide +kernel⟩

end DocShape
