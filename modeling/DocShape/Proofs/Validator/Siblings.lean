import DocShape.Proofs.Validator.Changes
import DocShape.Proofs.Validator.Gaps

/-!
# `DocShape.Proofs.Validator.Siblings`: groups of fields of one object

Where messages are fixed and setters are local, the fields of an object can be validated in
groups. Two groups without a common name give outcomes that share no key, and both groups together
give the two outcomes put together (`Validator.answer_append`). An error ends all of it, and the
first group that has one decides which it is (`Validator.answer_append_eq_error_iff`).

What a field does to the draft is one `Change` under its own name, so drafts are compared key by
key.
-/

set_option autoImplicit false

namespace DocShape

open Evaluation

/-- Two lists are equal if they go with the items of a third one that leave no choice. -/
theorem eq_of_forall₂ {α β : Type} {goes alsoGoes : α → β → Prop} {items : List α}
    {results others : List β} (unique : ∀ item result other, goes item result →
      alsoGoes item other → result = other)
    (h : List.Forall₂ goes items results) (hother : List.Forall₂ alsoGoes items others) :
    results = others := by
  induction h generalizing others with
  | nil =>
    cases hother
    rfl
  | cons hitem _ ih =>
    cases hother with
    | cons hfirst hrest => rw [unique _ _ _ hitem hfirst, ih hrest]

/-! ### Two objects put together -/

namespace Members

variable {key : String} {members others : Members}

/-- The members of two objects. Where both have a key, the second one counts. -/
def union (members others : Members) : Members :=
  others.foldl (fun members entry => members.insert entry.1 entry.2) members

/-- Two objects put together are in order. -/
theorem Increasing.union (increasing : members.Increasing) (others : Members) :
    (members.union others).Increasing := by
  induction others generalizing members with
  | nil => exact increasing
  | cons entry rest ih => exact ih (increasing.insert entry.1 entry.2)

/-- A key of two objects put together has the value of the second one, if that has one. -/
theorem get?_union (increasing : others.Increasing) :
    get? key (members.union others) = (get? key others).or (get? key members) := by
  induction others generalizing members with
  | nil => rfl
  | cons entry rest ih =>
    obtain ⟨hfirst, hrest⟩ := List.pairwise_cons.mp increasing
    obtain ⟨other, value⟩ := entry
    show get? key ((members.insert other value).union rest) = _
    rw [ih hrest]
    by_cases heq : other = key
    · subst heq
      -- No later member has the key.
      rw [get?_eq_none_of_lt hfirst, get?_insert_self]
      simp [get?]
    · rw [get?_insert_of_ne heq]
      simp [get?, heq]

/-- Nothing is put together of nothing only. -/
theorem isEmpty_union (members others : Members) :
    (members.union others).isEmpty = (members.isEmpty && others.isEmpty) := by
  induction others generalizing members with
  | nil => exact (Bool.and_true _).symm
  | cons entry rest ih =>
    show ((members.insert entry.1 entry.2).union rest).isEmpty = _
    rw [ih, isEmpty_insert]
    exact (Bool.and_false _).symm

/-- Two objects share no key if under every key one of them holds nothing. -/
theorem disjoint_keys_of_get? (h : ∀ key, get? key members = none ∨ get? key others = none) :
    members.keys.Disjoint others.keys := by
  intro key hkey hother
  rw [mem_keys_iff] at hkey hother
  rcases h key with hnone | hnone
  · rw [hnone] at hkey
    cases hkey
  · rw [hnone] at hother
    cases hother

end Members

namespace Draft

/-- Two drafts together. -/
def union (draft other : Draft) : Draft :=
  ⟨draft.valid.union other.valid, draft.errors.union other.errors⟩

/-- Two drafts that share no key, neither of what passed nor of what failed. -/
structure Apart (draft other : Draft) : Prop where
  valid : draft.valid.keys.Disjoint other.valid.keys
  errors : draft.errors.keys.Disjoint other.errors.keys

variable {draft other : Draft}

/-- Drafts are apart if one of them holds nothing, key by key. -/
theorem apart_of_look (h : ∀ key, draft.look key = (none, none) ∨ other.look key = (none, none)) :
    draft.Apart other where
  valid := Members.disjoint_keys_of_get? fun key =>
    (h key).imp (congrArg Prod.fst) (congrArg Prod.fst)
  errors := Members.disjoint_keys_of_get? fun key =>
    (h key).imp (congrArg Prod.snd) (congrArg Prod.snd)

/-- What is under a key of two drafts put together is what the second one has there, or else the
first one. -/
theorem look_union (ordered : other.Ordered) (key : String) :
    (draft.union other).look key =
      ((other.look key).1.or (draft.look key).1, (other.look key).2.or (draft.look key).2) :=
  Prod.ext (Members.get?_union ordered.valid) (Members.get?_union ordered.errors)

/-- Two drafts put together have their keys in order. -/
theorem Ordered.union (ordered : draft.Ordered) (other : Draft) : (draft.union other).Ordered :=
  ⟨ordered.valid.union other.valid, ordered.errors.union other.errors⟩

/-- Nothing failed of two objects together exactly if nothing failed of either. -/
theorem errors_outcome_union_eq_none_iff :
    (draft.union other).outcome.errors = none ↔
      draft.outcome.errors = none ∧ other.outcome.errors = none := by
  have hvalid : (draft.union other).outcome.isValid =
      (draft.outcome.isValid && other.outcome.isValid) := by
    rw [isValid_outcome, isValid_outcome, isValid_outcome]
    exact Members.isEmpty_union draft.errors other.errors
  unfold Outcome.isValid at hvalid
  rw [← Option.isNone_iff_eq_none, hvalid, Bool.and_eq_true, Option.isNone_iff_eq_none,
    Option.isNone_iff_eq_none]

end Draft

/-- Changes of an empty draft under different names fill drafts that are apart. One after the
other they fill the draft that is the two drafts together. -/
theorem Change.applyAll_apart {changes others : List Change}
    (disjoint : (changes.map name).Disjoint (others.map name)) :
    (applyAll changes {}).Apart (applyAll others {}) ∧
      applyAll others (applyAll changes {}) =
        (applyAll changes {}).union (applyAll others {}) := by
  have ordered := ordered_applyAll changes Draft.ordered_empty
  have otherOrdered := ordered_applyAll others Draft.ordered_empty
  -- One of the groups leaves a key alone, and what is there in the end comes from the other one.
  have hlook (key : String) :
      (applyAll changes {}).look key = (none, none) ∧
          (applyAll others (applyAll changes {})).look key = (applyAll others {}).look key ∨
        (applyAll others {}).look key = (none, none) ∧
          (applyAll others (applyAll changes {})).look key = (applyAll changes {}).look key := by
    by_cases hkey : key ∈ changes.map name
    · have hother : key ∉ others.map name := disjoint hkey
      exact .inr ⟨look_applyAll_of_not_mem Draft.ordered_empty hother,
        look_applyAll_of_not_mem ordered hother⟩
    · have hempty := look_applyAll_of_not_mem Draft.ordered_empty hkey
      exact .inl ⟨hempty, look_applyAll_congr others ordered Draft.ordered_empty hempty⟩
  refine ⟨Draft.apart_of_look fun key => (hlook key).imp And.left And.left, ?_⟩
  refine (ordered_applyAll others ordered).ext (ordered.union _) fun key => ?_
  rw [Draft.look_union otherOrdered]
  rcases hlook key with ⟨hnone, hsame⟩ | ⟨hnone, hsame⟩
  · rw [hsame, hnone, Option.or_none, Option.or_none]
  · rw [hsame, hnone, Option.none_or, Option.none_or]

/-! ### Groups of fields -/

namespace Field

variable {scope : Validator} {members : Members} {fields others : List Field}

/-- The gaps of two groups of fields are those of the first and then those of the second. -/
theorem allGaps_append (members : Members) (fields others : List Field) :
    allGaps members (fields ++ others) = allGaps members fields ++ allGaps members others := by
  induction fields with
  | nil => rfl
  | cons field rest ih =>
    show field.gaps members ++ allGaps members (rest ++ others) = _
    rw [ih, ← List.append_assoc]
    rfl

/-- Two groups of fields are evaluated one after the other. -/
theorem evaluateAll_append (scope : Validator) (members : Members) (draft : Draft)
    (fields others : List Field) :
    evaluateAll scope members draft (fields ++ others) = (do
      let middle ← evaluateAll scope members draft fields
      evaluateAll scope members middle others) := by
  induction fields generalizing draft with
  | nil => exact (pure_bind ..).symm
  | cons field rest ih =>
    have hrest := bind_congr (x := field.evaluate scope members draft) ih
    exact hrest.trans (bind_assoc ..).symm

/-- A field matches itself. -/
theorem matches_self (field : Field) : field.Matches Eq field := by
  cases field with
  | leaf name => exact .leaf name
  | nested name shape => exact .nested name rfl

/-- With fixed messages fields make the same changes whenever they are evaluated. -/
theorem changes_unique {changes otherChanges : List Change} (fixed : scope.FixedMessages)
    (makes : List.Forall₂ (Makes scope members) fields changes)
    (otherMakes : List.Forall₂ (Makes scope members) fields otherChanges) :
    changes = otherChanges := by
  refine eq_of_forall₂ (fun field _ _ hchange hother => ?_) makes otherMakes
  refine field.matches_self.makes_eq fixed ?_ hchange hother
  rintro name shape _ - rfl value outcome otherOutcome houtcome hotherOutcome
  exact (shape.repeatable (fixed.scopeFor name) value).unique houtcome hotherOutcome

/-- Where setters are local, the draft of an object is in order. -/
theorem ordered_of_gives_all {draft : Draft} (hlocal : scope.LocalSetters)
    (h : Gives (evaluateAll scope members {} fields) draft) : draft.Ordered := by
  obtain ⟨changes, -, rfl⟩ := exists_changes_of_gives_all hlocal h
  exact Change.ordered_applyAll changes Draft.ordered_empty

/-- With fixed messages and local setters, two groups of fields without a common name fill drafts
that are apart. Together they fill the draft that is the two drafts together. -/
theorem eq_union_of_gives_append {first second whole : Draft} (fixed : scope.FixedMessages)
    (hlocal : scope.LocalSetters) (disjoint : (fields.map name).Disjoint (others.map name))
    (hfirst : Gives (evaluateAll scope members {} fields) first)
    (hsecond : Gives (evaluateAll scope members {} others) second)
    (hwhole : Gives (evaluateAll scope members {} (fields ++ others)) whole) :
    first.Apart second ∧ whole = first.union second := by
  rw [evaluateAll_append] at hwhole
  obtain ⟨middle, hmiddle, hwhole⟩ := gives_bind hwhole
  -- The first group makes its changes again, and then the second group makes its own from there.
  obtain ⟨changes, hchanges, rfl⟩ := exists_changes_of_gives_all hlocal hfirst
  obtain ⟨again, hagain, rfl⟩ := exists_changes_of_gives_all hlocal hmiddle
  cases changes_unique fixed hchanges hagain
  obtain ⟨otherChanges, hotherChanges, rfl⟩ := exists_changes_of_gives_all hlocal hsecond
  obtain ⟨otherAgain, hotherAgain, rfl⟩ := exists_changes_of_gives_all hlocal hwhole
  cases changes_unique fixed hotherChanges hotherAgain
  refine Change.applyAll_apart ?_
  rw [map_name_of_makes hchanges, map_name_of_makes hotherChanges]
  exact disjoint

end Field

/-! ### Answers -/

/-- The gaps of two groups of fields are those of the first and then those of the second. -/
theorem Shape.gaps_append (fields others : List Field) (members : Members) :
    (Shape.object (fields ++ others)).gaps (.object members) =
      (Shape.object fields).gaps (.object members) ++
        (Shape.object others).gaps (.object members) :=
  Field.allGaps_append members fields others

namespace Validator

/-- There is an outcome exactly if there is no gap. -/
theorem exists_answer_iff_gaps_eq_nil (validator : Validator) (shape : Shape) (document : Json)
    (store : Store) :
    (∃ outcome, (validator.validateShape shape document).answer store = .ok outcome) ↔
      shape.gaps document = [] := by
  refine ⟨?_, fun hgaps => validator.exists_answer_of_gaps_eq_nil hgaps store⟩
  rintro ⟨outcome, hanswer⟩
  cases hgaps : shape.gaps document with
  | nil => rfl
  | cons gap rest =>
    have herror := (validator.answer_eq_error_iff shape document store _).mpr
      ⟨gap, congrArg List.head? hgaps, rfl⟩
    rw [hanswer] at herror
    cases herror

/-- The first of two groups of fields that has an error decides which one there is. -/
theorem answer_append_eq_error_iff (validator : Validator) (fields others : List Field)
    (members : Members) (store earlier later : Store) (error : ValidateError) :
    (validator.validateShape (.object (fields ++ others)) (.object members)).answer store =
        .error error ↔
      (validator.validateShape (.object fields) (.object members)).answer earlier = .error error ∨
        (∃ outcome, (validator.validateShape (.object fields) (.object members)).answer earlier =
          .ok outcome) ∧
        (validator.validateShape (.object others) (.object members)).answer later =
          .error error := by
  rw [answer_eq_error_iff, answer_eq_error_iff, answer_eq_error_iff, Shape.gaps_append,
    exists_answer_iff_gaps_eq_nil]
  cases (Shape.object fields).gaps (.object members) with
  | nil => simp
  | cons gap rest => simp

variable {validator : Validator} (fixed : validator.FixedMessages)
  (hlocal : validator.LocalSetters)
include fixed hlocal

/-- Two groups of fields without a common name give outcomes that share no key, and together the
two outcomes put together. -/
theorem answer_append {fields others : List Field}
    (disjoint : (fields.map Field.name).Disjoint (others.map Field.name)) {members : Members}
    {earlier later : Store} {outcome otherOutcome : Outcome}
    (h : (validator.validateShape (.object fields) (.object members)).answer earlier =
      .ok outcome)
    (hother : (validator.validateShape (.object others) (.object members)).answer later =
      .ok otherOutcome) (store : Store) :
    ∃ draft other : Draft, draft.Ordered ∧ other.Ordered ∧ draft.Apart other ∧
      outcome = draft.outcome ∧ otherOutcome = other.outcome ∧
      (validator.validateShape (.object (fields ++ others)) (.object members)).answer store =
        .ok (draft.union other).outcome := by
  -- Neither group has a gap, so both together have none and there is an outcome of the whole.
  have hgaps := Shape.gaps_append fields others members
  rw [(exists_answer_iff_gaps_eq_nil ..).mp ⟨outcome, h⟩,
    (exists_answer_iff_gaps_eq_nil ..).mp ⟨otherOutcome, hother⟩] at hgaps
  obtain ⟨whole, hwhole⟩ := validator.exists_answer_of_gaps_eq_nil hgaps store
  obtain ⟨draft, hdraft, rfl⟩ := Shape.gives_object (gives_of_answer h)
  obtain ⟨other, hotherDraft, rfl⟩ := Shape.gives_object (gives_of_answer hother)
  obtain ⟨wholeDraft, hwholeDraft, rfl⟩ := Shape.gives_object (gives_of_answer hwhole)
  obtain ⟨apart, rfl⟩ :=
    Field.eq_union_of_gives_append fixed hlocal disjoint hdraft hotherDraft hwholeDraft
  exact ⟨draft, other, Field.ordered_of_gives_all hlocal hdraft,
    Field.ordered_of_gives_all hlocal hotherDraft, apart, rfl, rfl, hwhole⟩

end Validator

end DocShape
