import DocShape.Proofs.Json.Members
import DocShape.Proofs.Validator.Drafts
import DocShape.Proofs.Validator.Repeats

/-!
# `DocShape.Proofs.Validator.Changes`: fields that keep to their own name

A setter may write under any name, and read what is there already. If every setter keeps to the
name of its field and to its value (`Setter.Local`), then each field of an object changes the
draft under one name (`Change`), whatever the draft holds under others. What is there in the end
can be looked up name by name: it is what the one change of that name leaves there
(`Change.look_applyAll_of_mem`). So the order of the changes does not matter
(`Change.applyAll_eq_of_perm`).

`Field.Makes` says which change a field makes. Where messages are fixed it makes one only.
-/

set_option autoImplicit false

namespace DocShape

/-! ### Setters that keep to their field -/

/-- The setter changes an object under the name of its field at most, and what it leaves there is
up to the name and the value of the field. -/
def Setter.Local (set : Setter) : Prop :=
  ∃ write : FieldContext → Option Json, ∀ (field : FieldContext) (members : Members),
    members.Increasing →
      (set field members).Increasing ∧
      Members.get? field.name (set field members) = write field ∧
      ∀ key, key ≠ field.name →
        Members.get? key (set field members) = Members.get? key members

/-- A setter is local if it does nothing but put something under the name of its field. -/
theorem Setter.local_insert (value : FieldContext → Json) :
    Setter.Local fun field => Members.insert field.name (value field) := by
  refine ⟨fun field => some (value field), fun field members increasing => ⟨?_, ?_, ?_⟩⟩
  · exact increasing.insert field.name (value field)
  · exact Members.get?_insert_self ..
  · intro key hkey
    exact Members.get?_insert_of_ne hkey.symm ..

/-- The setter of the rule is local, if it has one. -/
def Rule.Local (rule : Rule) : Prop :=
  ∀ set, rule.set = some set → set.Local

/-- A rule assigns like a local setter, also without one. -/
theorem Rule.Local.assign {rule : Rule} (hlocal : rule.Local) : Setter.Local rule.assign := by
  unfold Rule.assign
  cases hset : rule.set with
  | none => exact Setter.local_insert fun field => field.value
  | some set => exact hlocal set hset

namespace Validator

/-- The setters of the validator and of those nested in it are local. -/
def LocalSetters (validator : Validator) : Prop :=
  ∀ other, validator.Uses other → ∀ name rule,
    OrderedMap.get? other.schema name = some (.rule rule) → rule.Local

variable {validator : Validator}

/-- The rule that a validator finds for a field is local if all its setters are. -/
theorem LocalSetters.ruleFor (hlocal : validator.LocalSetters) (name : String) :
    (validator.ruleFor name).Local := by
  unfold Validator.ruleFor
  split
  · next rule entry => exact hlocal validator (.itself validator) name rule entry
  · exact nofun

/-- The validator that a field is handed to is one of those that are used, so its setters are
local as well. -/
theorem LocalSetters.scopeFor (hlocal : validator.LocalSetters) (name : String) :
    (validator.scopeFor name).LocalSetters :=
  fun other uses => hlocal other uses.of_scopeFor

/-- The messages of the validator that a field is handed to are fixed as well. -/
theorem FixedMessages.scopeFor (fixed : validator.FixedMessages) (name : String) :
    (validator.scopeFor name).FixedMessages :=
  fun other uses => fixed other uses.of_scopeFor

end Validator

/-! ### Changes of a draft -/

namespace Draft

/-- What passed and what failed under a key. -/
def look (key : String) (draft : Draft) : Option Json × Option Json :=
  (Members.get? key draft.valid, Members.get? key draft.errors)

/-- Both trees of the draft are in order. -/
structure Ordered (draft : Draft) : Prop where
  valid : draft.valid.Increasing
  errors : draft.errors.Increasing

/-- The draft of an object before its first field. -/
theorem ordered_empty : Ordered {} :=
  ⟨.nil, .nil⟩

/-- Two drafts that hold the same under every key are equal. -/
theorem Ordered.ext {draft other : Draft} (ordered : draft.Ordered) (otherOrdered : other.Ordered)
    (h : ∀ key, draft.look key = other.look key) : draft = other := by
  obtain ⟨valid, errors⟩ := draft
  obtain ⟨otherValid, otherErrors⟩ := other
  -- The keys of each tree are in order, so nothing but what they hold tells two trees apart.
  have hvalid := ordered.valid.ext otherOrdered.valid fun key => congrArg Prod.fst (h key)
  have herrors := ordered.errors.ext otherOrdered.errors fun key => congrArg Prod.snd (h key)
  exact congrArg₂ Draft.mk hvalid herrors

end Draft

/-- A change of a draft under one name, which looks at nothing under other names. -/
structure Change where
  name : String
  apply : Draft → Draft
  ordered : ∀ {draft : Draft}, draft.Ordered → (apply draft).Ordered
  keeps : ∀ {draft : Draft} {key : String}, draft.Ordered → key ≠ name →
    (apply draft).look key = draft.look key
  agrees : ∀ {draft other : Draft}, draft.Ordered → other.Ordered →
    draft.look name = other.look name → (apply draft).look name = (apply other).look name

namespace Change

/-- The field fails. -/
def fail (name message : String) : Change where
  name := name
  apply draft := draft.fail name message
  ordered h := ⟨h.valid, h.errors.insert name _⟩
  keeps _ hkey := Prod.ext rfl (Members.get?_insert_of_ne hkey.symm ..)
  agrees {draft other} _ _ hlook := by
    -- What failed before under this name is overwritten.
    refine Prod.ext (congrArg Prod.fst hlook :) ?_
    show Members.get? name (Members.insert ..) = Members.get? name (Members.insert ..)
    rw [Members.get?_insert_self, Members.get?_insert_self]

/-- The field passes and is written by a rule. -/
def assign {rule : Rule} (hlocal : rule.Local) (field : FieldContext) : Change where
  name := field.name
  apply draft := draft.assign rule field
  ordered {draft} h := by
    obtain ⟨write, hwrite⟩ := hlocal.assign
    exact ⟨(hwrite field draft.valid h.valid).1, h.errors⟩
  keeps {draft key} h hkey := by
    obtain ⟨write, hwrite⟩ := hlocal.assign
    exact Prod.ext ((hwrite field draft.valid h.valid).2.2 key hkey) rfl
  agrees {draft other} h hother hlook := by
    obtain ⟨write, hwrite⟩ := hlocal.assign
    -- Under its own name the setter leaves the same, whatever was there before.
    have hdraft := (hwrite field draft.valid h.valid).2.1
    have hothers := (hwrite field other.valid hother.valid).2.1
    exact Prod.ext (hdraft.trans hothers.symm) (congrArg Prod.snd hlook :)

/-- The field goes to its rule. -/
def judge {rule : Rule} (hlocal : rule.Local) (field : FieldContext) : Change :=
  match rule.check field.value with
  | some message => .fail field.name message
  | none => .assign hlocal field

/-- A rule judges a leaf by its change. -/
theorem apply_judge {rule : Rule} (hlocal : rule.Local) (field : FieldContext) (draft : Draft) :
    (judge hlocal field).apply draft = draft.judge rule field := by
  unfold judge Draft.judge
  cases rule.check field.value <;> rfl

/-- The change of a leaf is under its name. -/
theorem name_judge {rule : Rule} (hlocal : rule.Local) (field : FieldContext) :
    (judge hlocal field).name = field.name := by
  unfold judge
  cases rule.check field.value <;> rfl

/-- The field has trees of its own, which come under its name. -/
def splice (name : String) (outcome : Outcome) : Change where
  name := name
  apply draft := draft.splice name outcome
  ordered {draft} h := by
    unfold Draft.splice
    refine ⟨?_, ?_⟩
    · cases outcome.valid with
      | none => exact h.valid
      | some tree => exact h.valid.insert name tree
    · cases outcome.errors with
      | none => exact h.errors
      | some tree => exact h.errors.insert name tree
  keeps {draft key} _ hkey := by
    have hkeeps := draft.keeps_splice hkey.symm True outcome
    exact Prod.ext (hkeeps.valid trivial) hkeeps.errors
  agrees {draft other} _ _ hlook := by
    unfold Draft.look at hlook ⊢
    rw [Draft.get?_valid_splice, Draft.get?_valid_splice, Draft.get?_errors_splice,
      Draft.get?_errors_splice]
    exact Prod.ext (congrArg (outcome.valid.or ·.1) hlook)
      (congrArg (outcome.errors.or ·.2) hlook)

variable {draft other : Draft} {key : String}

/-- What is under a key after the change is up to what was there before. -/
theorem look_apply_congr (change : Change) (ordered : draft.Ordered)
    (otherOrdered : other.Ordered) (h : draft.look key = other.look key) :
    (change.apply draft).look key = (change.apply other).look key := by
  by_cases hkey : key = change.name
  · subst hkey
    exact change.agrees ordered otherOrdered h
  · rw [change.keeps ordered hkey, change.keeps otherOrdered hkey]
    exact h

/-- Does changes one after another. -/
def applyAll : List Change → Draft → Draft
  | [], draft => draft
  | change :: rest, draft => applyAll rest (change.apply draft)

/-- Changes keep the keys of a draft in order. -/
theorem ordered_applyAll (changes : List Change) (ordered : draft.Ordered) :
    (applyAll changes draft).Ordered := by
  induction changes generalizing draft with
  | nil => exact ordered
  | cons change rest ih => exact ih (change.ordered ordered)

/-- Changes under other names leave a key alone. -/
theorem look_applyAll_of_not_mem {changes : List Change} (ordered : draft.Ordered)
    (hkey : key ∉ changes.map name) : (applyAll changes draft).look key = draft.look key := by
  induction changes generalizing draft with
  | nil => rfl
  | cons change rest ih =>
    obtain ⟨hne, hrest⟩ := not_or.mp (List.mem_cons.not.mp hkey)
    show (applyAll rest (change.apply draft)).look key = _
    rw [ih (change.ordered ordered) hrest, change.keeps ordered hne]

/-- What is under a key after all changes is up to what was there before. -/
theorem look_applyAll_congr (changes : List Change) (ordered : draft.Ordered)
    (otherOrdered : other.Ordered) (h : draft.look key = other.look key) :
    (applyAll changes draft).look key = (applyAll changes other).look key := by
  induction changes generalizing draft other with
  | nil => exact h
  | cons change rest ih =>
    exact ih (change.ordered ordered) (change.ordered otherOrdered)
      (change.look_apply_congr ordered otherOrdered h)

/-- If no name is changed twice, each change leaves under its name what it would leave there
alone. -/
theorem look_applyAll_of_mem {changes : List Change} {change : Change}
    (nodup : (changes.map name).Nodup) (hchange : change ∈ changes) (ordered : draft.Ordered) :
    (applyAll changes draft).look change.name = (change.apply draft).look change.name := by
  induction changes generalizing draft with
  | nil => cases hchange
  | cons first rest ih =>
    obtain ⟨hfirst, hrest⟩ := List.nodup_cons.mp nodup
    rcases List.mem_cons.mp hchange with rfl | hchange
    · exact look_applyAll_of_not_mem (change.ordered ordered) hfirst
    · -- The first change is about another name, so this one finds the same there as before.
      have hne : change.name ≠ first.name := fun heq =>
        hfirst (heq ▸ List.mem_map_of_mem hchange)
      refine (ih hrest hchange (first.ordered ordered)).trans ?_
      exact change.agrees (first.ordered ordered) ordered (first.keeps ordered hne)

/-- Changes under different names come to the same in any order. -/
theorem applyAll_eq_of_perm {changes others : List Change} (perm : changes.Perm others)
    (nodup : (changes.map name).Nodup) (ordered : draft.Ordered) :
    applyAll changes draft = applyAll others draft := by
  have hnames : (changes.map name).Perm (others.map name) := perm.map name
  refine (ordered_applyAll changes ordered).ext (ordered_applyAll others ordered) fun key => ?_
  -- Under a name that is changed, both orders leave what its one change leaves there.
  by_cases hkey : key ∈ changes.map name
  · obtain ⟨change, hchange, rfl⟩ := List.mem_map.mp hkey
    rw [look_applyAll_of_mem nodup hchange ordered,
      look_applyAll_of_mem (hnames.nodup_iff.mp nodup) (perm.mem_iff.mp hchange) ordered]
  · rw [look_applyAll_of_not_mem ordered hkey,
      look_applyAll_of_not_mem ordered (hkey ∘ hnames.mem_iff.mpr)]

end Change

/-! ### The change that a field makes -/

open Evaluation

/-- The changes that a field can make, in the scope of a validator and for the members of an
object. -/
inductive Field.Makes (scope : Validator) (members : Members) : Field → Change → Prop where
  | absent {field : Field} {message : String}
    (absent : Members.present? field.name members = none)
    (gives : Gives (Evaluation.require scope.catalog) message) :
    Makes scope members field (.fail field.name message)
  | leaf {name : String} {value : Json} (hlocal : (scope.ruleFor name).Local)
    (present : Members.present? name members = some value) :
    Makes scope members (.leaf name) (.judge hlocal ⟨name, value⟩)
  | nested {name : String} {shape : Shape} {value : Json} {outcome : Outcome}
    (present : Members.present? name members = some value)
    (gives : Gives (shape.evaluate (scope.scopeFor name) value) outcome) :
    Makes scope members (.nested name shape) (.splice name outcome)

/-- Two fields of one name, both leaves or both with shapes that are related. -/
inductive Field.Matches (related : Shape → Shape → Prop) : Field → Field → Prop where
  | leaf (name : String) : Matches related (.leaf name) (.leaf name)
  | nested {shape other : Shape} (name : String) (shapes : related shape other) :
    Matches related (.nested name shape) (.nested name other)

namespace Field

variable {scope : Validator} {members : Members} {draft result : Draft}

/-- Fields that match have one name. -/
theorem Matches.name_eq {related : Shape → Shape → Prop} {field other : Field}
    (h : field.Matches related other) : field.name = other.name := by
  cases h <;> rfl

/-- A change that a field makes is under its name. -/
theorem Makes.name_eq {field : Field} {change : Change}
    (makes : field.Makes scope members change) :
    change.name = field.name := by
  cases makes with
  | absent _ _ => rfl
  | leaf hlocal _ => exact Change.name_judge hlocal _
  | nested _ _ => rfl

/-- The changes of fields are under the names of the fields, in their order. -/
theorem map_name_of_makes {fields : List Field} {changes : List Change}
    (makes : List.Forall₂ (Makes scope members) fields changes) :
    changes.map Change.name = fields.map name := by
  induction makes with
  | nil => rfl
  | cons hfirst _ ih => rw [List.map_cons, List.map_cons, hfirst.name_eq, ih]

/-- Where setters are local, a field does nothing but make its change. -/
theorem exists_change_of_gives {field : Field} (hlocal : scope.LocalSetters)
    (h : Gives (field.evaluate scope members draft) result) :
    ∃ change, field.Makes scope members change ∧ result = change.apply draft := by
  -- A missing value, a leaf and a structured field make one kind of change each.
  cases hpresent : Members.present? field.name members with
  | none =>
    obtain ⟨message, hmessage, rfl⟩ := gives_fail_of_absent hpresent h
    exact ⟨_, .absent hpresent hmessage, rfl⟩
  | some value =>
    cases field with
    | leaf name =>
      rw [name_leaf] at hpresent
      have hresult := gives_leaf hpresent h
      rw [← Change.apply_judge (hlocal.ruleFor name)] at hresult
      exact ⟨_, .leaf (hlocal.ruleFor name) hpresent, hresult⟩
    | nested name shape =>
      obtain ⟨outcome, houtcome, rfl⟩ := gives_nested hpresent h
      exact ⟨_, .nested hpresent houtcome, rfl⟩

/-- The fields of an object make their changes in order. -/
theorem exists_changes_of_gives_all {fields : List Field} (hlocal : scope.LocalSetters)
    (h : Gives (evaluateAll scope members draft fields) result) :
    ∃ changes, List.Forall₂ (Makes scope members) fields changes ∧
      result = Change.applyAll changes draft := by
  induction fields generalizing draft with
  | nil => exact ⟨[], .nil, gives_nil h⟩
  | cons field rest ih =>
    obtain ⟨middle, hfield, hrest⟩ := gives_cons h
    obtain ⟨change, hchange, rfl⟩ := exists_change_of_gives hlocal hfield
    obtain ⟨changes, hchanges, rfl⟩ := ih hrest
    exact ⟨change :: changes, .cons hchange hchanges, rfl⟩

/-- With fixed messages two fields that match make the same change, if their shapes give the same
outcomes. -/
theorem Matches.makes_eq {related : Shape → Shape → Prop} {field other : Field}
    {change otherChange : Change} (fixed : scope.FixedMessages) (h : field.Matches related other)
    (same : ∀ name shape otherShape, field = .nested name shape → related shape otherShape →
      ∀ value outcome otherOutcome, Gives (shape.evaluate (scope.scopeFor name) value) outcome →
        Gives (otherShape.evaluate (scope.scopeFor name) value) otherOutcome →
        outcome = otherOutcome)
    (makes : field.Makes scope members change)
    (otherMakes : other.Makes scope members otherChange) :
    change = otherChange := by
  -- A field makes one kind of change where its value is missing and another where it is not.
  cases makes with
  | absent absent gives =>
    rw [h.name_eq] at absent ⊢
    cases otherMakes with
    | absent _ otherGives =>
      rw [(Repeatable.require (fixed scope (.itself scope))).unique gives otherGives]
    | leaf _ present => cases absent.symm.trans present
    | nested present _ => cases absent.symm.trans present
  | leaf hlocal present =>
    cases h
    cases otherMakes with
    | absent absent _ => cases absent.symm.trans present
    | leaf _ otherPresent =>
      cases present.symm.trans otherPresent
      rfl
  | nested present gives =>
    cases h with
    | nested name shapes =>
      cases otherMakes with
      | absent absent _ => cases absent.symm.trans present
      | nested otherPresent otherGives =>
        cases present.symm.trans otherPresent
        rw [same _ _ _ rfl shapes _ _ _ gives otherGives]

end Field

end DocShape
