import DocShape.Rule.Checks
import DocShape.Rule.Setters
import DocShape.Proofs.Shape.Names
import DocShape.Proofs.Validator.Siblings
import Mathlib.Data.List.Nodup
import Mathlib.Data.List.Perm.Basic

/-!
# `DocShape.Proofs.Validator.Reordering`: the order of fields does not matter

Two shapes may differ in the order of the fields of objects, at any depth (`Shape.Reordered`).
Where messages are fixed and setters are local, and no object has two fields of one name, they
give the same outcome. Both give an error or neither does, though not always the same one: what
comes first in the order is what the error is about.

`Validator.siblings_independent` puts this together with what is known of groups of fields.
-/

set_option autoImplicit false

namespace DocShape

open Evaluation

/-- Two shapes that differ in the order of the fields of objects at most, at any depth. -/
inductive Shape.Reordered : Shape → Shape → Prop where
  | object {fields between others : List Field}
    (inside : List.Forall₂ (Field.Matches Shape.Reordered) fields between)
    (perm : between.Perm others) : Shape.Reordered (.object fields) (.object others)
  | emptyArray : Shape.Reordered .emptyArray .emptyArray
  | arrayOf {element other : Shape} (inside : element.Reordered other) :
    Shape.Reordered (.arrayOf element) (.arrayOf other)

/-- Shapes that differ in the order of fields ask for the same kind of container. -/
theorem Shape.Reordered.kind_eq {shape other : Shape} (reordered : shape.Reordered other) :
    shape.kind = other.kind := by
  cases reordered <;> rfl

/-- They refuse other values with the same event. -/
theorem Shape.Reordered.refusal_eq {shape other : Shape} (reordered : shape.Reordered other) :
    shape.refusal = other.refusal := by
  cases reordered <;> rfl

/-- Fields in another order have the same gaps in another order. -/
theorem Field.allGaps_perm_of_perm (members : Members) {fields others : List Field}
    (perm : fields.Perm others) : (allGaps members fields).Perm (allGaps members others) := by
  induction perm with
  | nil => exact .nil
  | cons field _ ih => exact ih.append_left _
  | swap field other rest =>
    show (other.gaps members ++ (field.gaps members ++ _)).Perm
      (field.gaps members ++ (other.gaps members ++ _))
    rw [← List.append_assoc, ← List.append_assoc]
    exact List.perm_append_comm.append_right _
  | trans _ _ ih ih' => exact ih.trans ih'

mutual

/-- Along shapes that differ in the order of fields, a value has the same gaps in another
order. -/
theorem Shape.gaps_perm (shape : Shape) {other : Shape} (reordered : shape.Reordered other)
    (value : Json) : (shape.gaps value).Perm (other.gaps value) := by
  match shape, reordered with
  | .object fields, .object inside perm =>
    match value with
    | .object members =>
      -- First inside each field, then the fields themselves.
      exact (Field.allGaps_perm fields inside members).trans
        (Field.allGaps_perm_of_perm members perm)
    | .null | .bool _ | .number _ | .string _ | .array _ => exact .nil
  | .emptyArray, .emptyArray => exact .refl _
  | .arrayOf element, .arrayOf inside =>
    match value with
    | .array items =>
      exact List.Perm.flatMap_left _ fun entry _ => (element.gaps_perm inside entry.1).map _
    | .null | .bool _ | .number _ | .string _ | .object _ => exact .nil

/-- A field whose fields inside come in another order has the same gaps in another order. -/
theorem Field.gaps_perm (field : Field) {other : Field}
    (inside : field.Matches Shape.Reordered other) (members : Members) :
    (field.gaps members).Perm (other.gaps members) := by
  match field, inside with
  | .leaf name, .leaf _ => exact .refl _
  | .nested name shape, .nested _ reordered =>
    unfold Field.gaps
    cases Members.present? name members with
    | none => exact .nil
    | some value => exact (shape.gaps_perm reordered value).map _

/-- Fields that match one by one have the same gaps in another order. -/
theorem Field.allGaps_perm (fields : List Field) {others : List Field}
    (inside : List.Forall₂ (Field.Matches Shape.Reordered) fields others) (members : Members) :
    (Field.allGaps members fields).Perm (Field.allGaps members others) := by
  match fields, inside with
  | [], .nil => exact .nil
  | field :: rest, .cons first inside =>
    exact (field.gaps_perm first members).append (Field.allGaps_perm rest inside members)

end

mutual

/-- With fixed messages and local setters, shapes that differ in the order of fields give the same
outcome. -/
theorem Shape.outcome_eq_of_reordered (shape : Shape) {other : Shape}
    (reordered : shape.Reordered other) (distinct : shape.DistinctNames) {scope : Validator}
    (fixed : scope.FixedMessages) (hlocal : scope.LocalSetters) {value : Json}
    {outcome otherOutcome : Outcome} (h : Gives (shape.evaluate scope value) outcome)
    (hother : Gives (other.evaluate scope value) otherOutcome) : outcome = otherOutcome := by
  by_cases hkind : value.kind = shape.kind
  · match shape, reordered with
    | .object fields, .object inside perm =>
      obtain ⟨members, rfl⟩ := Json.exists_of_kind_object hkind
      obtain ⟨draft, hdraft, rfl⟩ := Shape.gives_object h
      obtain ⟨otherDraft, hotherDraft, rfl⟩ := Shape.gives_object hother
      obtain ⟨changes, hchanges, rfl⟩ := Field.exists_changes_of_gives_all hlocal hdraft
      obtain ⟨otherChanges, hothers, rfl⟩ := Field.exists_changes_of_gives_all hlocal hotherDraft
      -- The fields that were not moved yet make the changes of the others in their own order, and
      -- place by place these are the changes of the first shape.
      obtain ⟨moved, hmoved, hperm⟩ := List.perm_comp_forall₂ perm hothers
      have hsame := Field.changes_eq_of_reordered fields inside distinct.2 fixed hlocal hchanges
        hmoved
      subst hsame
      have nodup : (changes.map Change.name).Nodup := by
        rw [Field.map_name_of_makes hchanges]
        exact distinct.1
      rw [Change.applyAll_eq_of_perm hperm nodup Draft.ordered_empty]
    | .emptyArray, .emptyArray =>
      exact (Shape.emptyArray.repeatable fixed value).unique h hother
    | .arrayOf element, .arrayOf inside =>
      obtain ⟨items, rfl⟩ := Json.exists_of_kind_array hkind
      obtain ⟨outcomes, houtcomes, rfl⟩ := Shape.gives_arrayOf h
      obtain ⟨otherOutcomes, hothers, rfl⟩ := Shape.gives_arrayOf hother
      refine congrArg Outcome.ofItems
        (eq_of_forall₂ (fun item _ _ hitem hother => ?_) houtcomes hothers)
      exact element.outcome_eq_of_reordered inside distinct fixed hlocal hitem hother
  · -- Both refuse the value, with the one message of the catalog.
    have hrefuse := compositional_repeatable.refuse (fixed scope (.itself scope)) shape.refusal
    rw [Shape.evaluate_of_kind_ne hkind] at h
    rw [reordered.kind_eq] at hkind
    rw [Shape.evaluate_of_kind_ne hkind, ← reordered.refusal_eq] at hother
    exact hrefuse.unique h hother

/-- Fields that differ in the order of fields inside make the same changes. -/
theorem Field.changes_eq_of_reordered (fields : List Field) {others : List Field}
    (inside : List.Forall₂ (Field.Matches Shape.Reordered) fields others)
    (distinct : Field.EachInside (fun fields => (fields.map Field.name).Nodup) fields)
    {scope : Validator} (fixed : scope.FixedMessages) (hlocal : scope.LocalSetters)
    {members : Members} {changes otherChanges : List Change}
    (makes : List.Forall₂ (Field.Makes scope members) fields changes)
    (otherMakes : List.Forall₂ (Field.Makes scope members) others otherChanges) :
    changes = otherChanges := by
  match fields, inside, makes, otherMakes with
  | [], .nil, .nil, .nil => rfl
  -- A leaf has nothing inside, and the shapes of structured fields give the same outcome.
  | .leaf name :: rest, .cons first inside, .cons hfield hrest, .cons hother hothers =>
    have hchange := first.makes_eq fixed (fun _ _ _ => nofun) hfield hother
    rw [hchange, Field.changes_eq_of_reordered rest inside distinct fixed hlocal hrest hothers]
  | .nested name shape :: rest, .cons first inside, .cons hfield hrest, .cons hother hothers =>
    have hchange := first.makes_eq fixed ?_ hfield hother
    · rw [hchange,
        Field.changes_eq_of_reordered rest inside distinct.2 fixed hlocal hrest hothers]
    · rintro _ _ _ ⟨⟩ reordered value outcome otherOutcome houtcome hotherOutcome
      exact shape.outcome_eq_of_reordered reordered distinct.1 (fixed.scopeFor name)
        (hlocal.scopeFor name) houtcome hotherOutcome

end

namespace Validator

variable {validator : Validator} (fixed : validator.FixedMessages)
  (hlocal : validator.LocalSetters)
include fixed hlocal

/-- Shapes that differ in the order of fields give the same outcome, or an error both. -/
theorem answer_reordered {shape other : Shape} (reordered : shape.Reordered other)
    (distinct : shape.DistinctNames) (document : Json) (store otherStore : Store) :
    (∃ outcome, (validator.validateShape shape document).answer store = .ok outcome ∧
        (validator.validateShape other document).answer otherStore = .ok outcome) ∨
      ∃ error otherError, (validator.validateShape shape document).answer store = .error error ∧
        (validator.validateShape other document).answer otherStore = .error otherError := by
  have hperm := shape.gaps_perm reordered document
  cases h : (validator.validateShape shape document).answer store with
  | ok outcome =>
    -- Without gaps in one order there are none in the other.
    have hnil := (exists_answer_iff_gaps_eq_nil ..).mp ⟨outcome, h⟩
    rw [hnil] at hperm
    obtain ⟨otherOutcome, hother⟩ :=
      validator.exists_answer_of_gaps_eq_nil hperm.symm.eq_nil otherStore
    have heq := shape.outcome_eq_of_reordered reordered distinct fixed hlocal
      (gives_of_answer h) (gives_of_answer hother)
    exact .inl ⟨outcome, rfl, heq ▸ hother⟩
  | error error =>
    cases hother : (validator.validateShape other document).answer otherStore with
    | error otherError => exact .inr ⟨error, otherError, rfl, rfl⟩
    | ok outcome =>
      have hnil := (exists_answer_iff_gaps_eq_nil ..).mp ⟨outcome, hother⟩
      rw [hnil] at hperm
      obtain ⟨found, hfound⟩ := validator.exists_answer_of_gaps_eq_nil hperm.eq_nil store
      rw [h] at hfound
      cases hfound

/-- With fixed messages and local setters, the fields of an object do not depend on each other.
Two groups without a common name give outcomes that share no key, and together the two outcomes
put together. The error of the first group comes before that of the second. Shapes that differ in
the order of fields give the same outcome, or an error both. -/
theorem siblings_independent :
    (∀ (fields others : List Field), (fields.map Field.name).Disjoint (others.map Field.name) →
      ∀ (members : Members) (earlier later store : Store),
        let answer (fields : List Field) :=
          (validator.validateShape (.object fields) (.object members)).answer
        (∀ error, answer (fields ++ others) store = .error error ↔
          answer fields earlier = .error error ∨
            (∃ outcome, answer fields earlier = .ok outcome) ∧
              answer others later = .error error) ∧
        ∀ outcome otherOutcome, answer fields earlier = .ok outcome →
          answer others later = .ok otherOutcome →
            ∃ draft other : Draft, draft.Ordered ∧ other.Ordered ∧ draft.Apart other ∧
              outcome = draft.outcome ∧ otherOutcome = other.outcome ∧
              answer (fields ++ others) store = .ok (draft.union other).outcome ∧
              ((draft.union other).outcome.errors = none ↔
                outcome.errors = none ∧ otherOutcome.errors = none)) ∧
    ∀ (shape other : Shape), shape.Reordered other → shape.DistinctNames →
      ∀ (document : Json) (store otherStore : Store),
        let first := (validator.validateShape shape document).answer store
        let second := (validator.validateShape other document).answer otherStore
        (∃ outcome, first = .ok outcome ∧ second = .ok outcome) ∨
          ∃ error otherError, first = .error error ∧ second = .error otherError := by
  refine ⟨fun fields others disjoint members earlier later store => ⟨?_, ?_⟩, ?_⟩
  · exact validator.answer_append_eq_error_iff fields others members store earlier later
  · intro outcome otherOutcome hanswer hother
    obtain ⟨draft, other, ordered, otherOrdered, apart, rfl, rfl, hwhole⟩ :=
      answer_append fixed hlocal disjoint hanswer hother store
    exact ⟨draft, other, ordered, otherOrdered, apart, rfl, rfl, hwhole,
      Draft.errors_outcome_union_eq_none_iff⟩
  · exact fun shape other reordered distinct document store otherStore =>
      answer_reordered fixed hlocal reordered distinct document store otherStore

omit fixed hlocal

/-- A validator that keeps the name of one field in place of its value. -/
def naming (name : String) : Validator :=
  { (default : Validator) with schema := ⟨[(name, .rule ⟨none, some Setter.name⟩)]⟩ }

/-- The default catalog has one message. -/
theorem fixedMessages_naming (name : String) : (naming name).FixedMessages := by
  refine forall_uses_iff.mpr ⟨⟨_, fun _ => rfl⟩, fun key inner entry => ?_⟩
  have hentry : (if name = key then some (Entry.rule _) else none) = some (.nested inner) := entry
  split at hentry <;> cases hentry

/-- The setter writes a value under the name of its field, and nothing else. -/
theorem localSetters_naming (name : String) : (naming name).LocalSetters := by
  refine forall_uses_iff.mpr ⟨fun key rule entry => ?_, fun key inner entry => ?_⟩
  · have hentry : (if name = key then some (Entry.rule _) else none) = some (.rule rule) := entry
    split at hentry <;> cases hentry
    rintro set ⟨⟩
    exact Setter.local_insert fun field => .string field.name
  · have hentry : (if name = key then some (Entry.rule _) else none) =
        some (.nested inner) := entry
    split at hentry <;> cases hentry

/-- A group has a rule with both halves, and a validator inside. The other has a field that is
missing and one of the wrong kind. All of them also come in another order, inside the pets as
well. -/
theorem siblings_independent_pets :
    let long : Rule := ⟨some (Check.minLength "too short" 3), some (Setter.const (.nat 1))⟩
    let owner : Validator :=
      { (default : Validator) with
        schema := ⟨[("pets", .nested (naming "name")), ("note", .rule long)]⟩ }
    let pets : Field := .nested "pets" (.arrayOf (.object [.leaf "name", .leaf "age"]))
    let turned : Field := .nested "pets" (.arrayOf (.object [.leaf "age", .leaf "name"]))
    let tags : Field := .nested "tags" .emptyArray
    let fields : List Field := [.leaf "note", pets]
    let others : List Field := [.leaf "city", tags]
    let reordered : List Field := [tags, turned, .leaf "city", .leaf "note"]
    let members : Members := [("note", .string "hello"), ("pets", .array [
      .object [("name", .string "Rex")], .object [("age", .nat 3), ("name", .string "Roo")]]),
      ("tags", .nat 1)]
    let answer (fields : List Field) :=
      (owner.validateShape (.object fields) (.object members)).answer {}
    owner.FixedMessages ∧ owner.LocalSetters ∧ Shape.DistinctNames (.object (fields ++ others)) ∧
      Shape.Reordered (.object (fields ++ others)) (.object reordered) ∧
      (∃ draft other : Draft, draft.Apart other ∧ answer fields = .ok draft.outcome ∧
        answer others = .ok other.outcome ∧
        answer (fields ++ others) = .ok (draft.union other).outcome) ∧
      ((∃ outcome, answer (fields ++ others) = .ok outcome ∧ answer reordered = .ok outcome) ∨
        ∃ error otherError, answer (fields ++ others) = .error error ∧
          answer reordered = .error otherError) := by
  intro long owner pets turned tags fields others reordered members answer
  -- The schema has two entries, and each condition is checked on both.
  have hentry {name : String} {entry : Entry}
      (h : OrderedMap.get? owner.schema name = some entry) :
      entry = .nested (naming "name") ∨ entry = .rule long := by
    have hfind : (if "pets" = name then some (Entry.nested (naming "name"))
        else if "note" = name then some (.rule long) else none) = some entry := h
    grind
  have fixed : owner.FixedMessages := by
    refine forall_uses_iff.mpr ⟨⟨_, fun _ => rfl⟩, fun name inner entry => ?_⟩
    rcases hentry entry with ⟨⟨⟩⟩ | ⟨⟨⟩⟩
    exact fixedMessages_naming "name"
  have hlocal : owner.LocalSetters := by
    refine forall_uses_iff.mpr ⟨fun name rule entry => ?_, fun name inner entry => ?_⟩
    · rcases hentry entry with ⟨⟨⟩⟩ | ⟨⟨⟩⟩
      rintro set ⟨⟩
      exact Setter.local_insert fun _ => .nat 1
    · rcases hentry entry with ⟨⟨⟩⟩ | ⟨⟨⟩⟩
      exact localSetters_naming "name"
  have distinct : Shape.DistinctNames (.object (fields ++ others)) :=
    ⟨by decide, ⟨by decide, trivial⟩, trivial, trivial⟩
  have hreordered : Shape.Reordered (.object (fields ++ others)) (.object reordered) := by
    refine .object (.cons (.leaf _) (.cons (.nested _ (.arrayOf ?_)) (.cons (.leaf _)
      (.cons (.nested _ .emptyArray) .nil)))) (?_ : List.Perm [_, turned, _, _] reordered)
    · exact .object (.cons (.leaf _) (.cons (.leaf _) .nil)) (.swap ..)
    · decide
  have disjoint : (fields.map Field.name).Disjoint (others.map Field.name) :=
    List.disjoint_of_nodup_append (by decide)
  -- Neither group has a gap, so both give an outcome.
  obtain ⟨first, hfirst⟩ := owner.exists_answer_of_gaps_eq_nil
    (by decide : (Shape.object fields).gaps (.object members) = []) {}
  obtain ⟨second, hsecond⟩ := owner.exists_answer_of_gaps_eq_nil
    (by decide : (Shape.object others).gaps (.object members) = []) {}
  obtain ⟨hgroups, horder⟩ := siblings_independent fixed hlocal
  obtain ⟨draft, other, -, -, apart, rfl, rfl, hwhole, -⟩ :=
    (hgroups fields others disjoint members {} {} {}).2 first second hfirst hsecond
  exact ⟨fixed, hlocal, distinct, hreordered, ⟨draft, other, apart, hfirst, hsecond, hwhole⟩,
    horder _ _ hreordered distinct (.object members) {} {}⟩

end Validator

end DocShape
