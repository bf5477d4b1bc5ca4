import DocShape.Validator.Evaluation
import DocShape.Proofs.Validator.Lookup
import Mathlib.Data.List.Forall2

/-!
# `DocShape.Proofs.Validator.Runs`: what one part of a walk does

One equation for each small part of an evaluation, with the result it gives and the walk it leaves
behind. Parts that only note something do so in one write, whose notes are a function of what is
looked at (`leafNotes`, `delegateNotes`).

`Evaluation.Gives` forgets the walks: it says that a part can give a result. The result of a whole
is taken apart along `gives_bind`, and the lemmas for shapes and fields say what their results are
made of. An evaluation that ends in an error gives nothing.
-/

set_option autoImplicit false

namespace DocShape

namespace Walk

/-- The walk with more notes in its journal. -/
def write (walk : Walk) (notes : List Note) : Walk :=
  { walk with journal := walk.journal ++ notes }

/-- The walk one step further inside. -/
def enter (walk : Walk) (step : PathStep) : Walk :=
  { walk with path := walk.path ++ [step] }

/-- The walk one step back. -/
def leave (walk : Walk) : Walk :=
  { walk with path := walk.path.dropLast }

/-- The walk after a catalog was asked for a message. -/
def required (walk : Walk) (catalog : Catalog) : Walk :=
  { walk with
    counters := catalog.advance walk.counters
    journal := walk.journal ++ [.requested catalog (catalog.message walk.counters)] }

/-- Writing nothing changes nothing. -/
theorem write_nil (walk : Walk) : walk.write [] = walk := by
  simp [write]

/-- Notes that are written one after another are written at once. -/
theorem write_write (walk : Walk) (notes others : List Note) :
    (walk.write notes).write others = walk.write (notes ++ others) := by
  simp [write]

end Walk

namespace Evaluation

variable {α β : Type}

/-- A note is written and nothing else is done. -/
theorem run_note (note : Note) (walk : Walk) :
    (Evaluation.note note).run walk = .ok () (walk.write [note]) :=
  rfl

/-- An event is written with the path of the walk. -/
theorem run_log (event : FieldPath → Event) (walk : Walk) :
    (log event).run walk = .ok () (walk.write [.event (event walk.path)]) :=
  rfl

/-- A message is the next one of the catalog, which then counts on. -/
theorem run_require (catalog : Catalog) (walk : Walk) :
    (require catalog).run walk = .ok (catalog.message walk.counters) (walk.required catalog) :=
  rfl

/-- Going inside and back changes nothing about what is done there. -/
theorem run_inside (step : PathStep) (act : Evaluation α) (walk : Walk) :
    (inside step act).run walk =
      match act.run (walk.enter step) with
      | .ok result after => .ok result after.leave
      | .error error after => .error error after := by
  unfold inside
  simp only [EStateM.run_bind, EStateM.run_modify, EStateM.run_pure]
  -- The program writes the new path into the record, which is what `enter` abbreviates.
  rw [show { walk with path := walk.path ++ [step] } = walk.enter step from rfl]
  cases act.run (walk.enter step) <;> rfl

/-- A value of the wrong kind gets an event and a message. -/
theorem run_refuse (catalog : Catalog) (event : FieldPath → Event) (walk : Walk) :
    (refuse catalog event).run walk =
      .ok (.failure (catalog.message walk.counters))
        ((walk.write [.event (event walk.path)]).required catalog) :=
  rfl

/-- What is noted when a leaf field is put to its rule. -/
def leafNotes (scope : Validator) (name : String) (value : Json) (path : FieldPath) : List Note :=
  (if (scope.resolve name).isNested then [.event (.nestedOnLeaf path)] else []) ++
    (if (scope.ruleFor name).hasTest then [.tested path value] else [])

/-- What is noted when the validator for a structured field is looked up. -/
def delegateNotes (scope : Validator) (name : String) (path : FieldPath) : List Note :=
  match scope.resolve name with
  | .default => []
  | .rule _ => [.event (.ruleIgnored path)]
  | .nested _ => [.event (.delegating path)]

end Evaluation

/-- The draft once a leaf field was put to a rule. -/
def Draft.judge (draft : Draft) (rule : Rule) (field : FieldContext) : Draft :=
  match rule.check field.value with
  | some message => draft.fail field.name message
  | none => draft.assign rule field

namespace Evaluation

variable {α β : Type}

/-- A leaf field goes to its rule. -/
theorem run_leaf (scope : Validator) (name : String) (value : Json) (draft : Draft)
    (walk : Walk) :
    (leaf scope name value draft).run walk =
      .ok (draft.judge (scope.ruleFor name) ⟨name, value⟩)
        (walk.write (leafNotes scope name value walk.path)) := by
  simp only [leaf, leafNotes, Draft.judge, Validator.leafRule_resolve]
  -- What the program asks about the entry, in its own order.
  cases (scope.resolve name).isNested <;> cases (scope.ruleFor name).hasTest <;>
    cases (scope.ruleFor name).check value <;>
    simp only [Bool.false_eq_true, if_true, if_false, EStateM.run_bind, EStateM.run_get,
      EStateM.run_pure, run_log, run_note, Walk.write_write, Walk.write_nil, List.append_nil,
      List.nil_append] <;>
    rfl

/-- A structured field goes to the validator that the schema names, or stays. -/
theorem run_delegate (scope : Validator) (name : String) (walk : Walk) :
    (delegate scope name).run walk =
      .ok (scope.scopeFor name) (walk.write (delegateNotes scope name walk.path)) := by
  unfold delegate delegateNotes Validator.scopeFor Validator.resolve Schema.resolve
  cases OrderedMap.get? scope.schema name with
  | none =>
    -- Only here nothing is logged: the name is not in the schema.
    show EStateM.Result.ok scope walk = .ok scope (walk.write [])
    rw [Walk.write_nil]
  | some entry => cases entry <;> rfl

/-! ### Results -/

/-- A part can give a result: from some walk it does. -/
def Gives (act : Evaluation α) (result : α) : Prop :=
  ∃ before after, act.run before = .ok result after

/-- To return a value gives that value. -/
theorem gives_pure {value result : α} (h : Gives (pure value) result) : result = value := by
  obtain ⟨before, after, hrun⟩ := h
  cases hrun
  rfl

/-- An error gives nothing. -/
theorem not_gives_throw {error : ValidateError} {result : α} : ¬Gives (throw error) result := by
  rintro ⟨before, after, hrun⟩
  cases hrun

/-- The result of two parts in a row comes from a result of the first. -/
theorem gives_bind {first : Evaluation α} {next : α → Evaluation β} {result : β}
    (h : Gives (first >>= next) result) :
    ∃ middle, Gives first middle ∧ Gives (next middle) result := by
  obtain ⟨before, after, hrun⟩ := h
  rw [EStateM.run_bind] at hrun
  -- The walk that the first part leaves is one from which the second part gives the result.
  cases hfirst : first.run before with
  | error error walk =>
    rw [hfirst] at hrun
    cases hrun
  | ok middle walk =>
    rw [hfirst] at hrun
    exact ⟨middle, ⟨before, walk, hfirst⟩, walk, after, hrun⟩

/-- What is given one step inside is given by the part itself. -/
theorem gives_inside {step : PathStep} {act : Evaluation α} {result : α}
    (h : Gives (inside step act) result) : Gives act result := by
  obtain ⟨before, after, hrun⟩ := h
  rw [run_inside] at hrun
  cases hact : act.run (before.enter step) with
  | error error walk =>
    rw [hact] at hrun
    cases hrun
  | ok found walk =>
    rw [hact] at hrun
    cases hrun
    exact ⟨_, walk, hact⟩

/-- A leaf gives the draft that its rule makes. -/
theorem gives_leaf {scope : Validator} {name : String} {value : Json} {draft result : Draft}
    (h : Gives (leaf scope name value draft) result) :
    result = draft.judge (scope.ruleFor name) ⟨name, value⟩ := by
  obtain ⟨before, after, hrun⟩ := h
  rw [run_leaf] at hrun
  cases hrun
  rfl

/-- Handing a field over gives the validator that is in charge of it. -/
theorem gives_delegate {scope result : Validator} {name : String}
    (h : Gives (delegate scope name) result) : result = scope.scopeFor name := by
  obtain ⟨before, after, hrun⟩ := h
  rw [run_delegate] at hrun
  cases hrun
  rfl

/-- A value of the wrong kind gives a failure. -/
theorem gives_refuse {catalog : Catalog} {event : FieldPath → Event} {outcome : Outcome}
    (h : Gives (refuse catalog event) outcome) : ∃ message, outcome = .failure message := by
  obtain ⟨before, after, hrun⟩ := h
  rw [run_refuse] at hrun
  cases hrun
  exact ⟨_, rfl⟩

/-- The outcomes of items are those of the items one by one. -/
theorem gives_eachItem {act : Json → Evaluation Outcome} {items : List Json} {position : Nat}
    {outcomes : List Outcome} (h : Gives (eachItem act position items) outcomes) :
    List.Forall₂ (fun item outcome => Gives (act item) outcome) items outcomes := by
  induction items generalizing position outcomes with
  | nil =>
    rw [gives_pure h]
    exact .nil
  | cons item rest ih =>
    -- The position only goes into the path, so the items behind the first are taken as they are.
    obtain ⟨outcome, hitem, h⟩ := gives_bind h
    obtain ⟨others, hrest, h⟩ := gives_bind h
    rw [gives_pure h]
    exact .cons (gives_inside hitem) (ih hrest)

/-- What is said of outcomes in a row is what is said of their items, if it is so one by one. -/
theorem map_eq_map_of_forall₂ {γ : Type} {gives : Json → Outcome → Prop} {items : List Json}
    {outcomes : List Outcome} {f : Outcome → γ} {g : Json → γ}
    (h : List.Forall₂ gives items outcomes)
    (each : ∀ item outcome, gives item outcome → f outcome = g item) :
    outcomes.map f = items.map g := by
  induction h with
  | nil => rfl
  | cons hitem _ ih => rw [List.map_cons, List.map_cons, each _ _ hitem, ih]

end Evaluation

open Evaluation

/-- The kind of value that a shape asks for. -/
def Shape.kind : Shape → Kind
  | .object _ => .object
  | .emptyArray => .array
  | .arrayOf _ => .array

/-- No shape asks for null. -/
theorem Shape.kind_null_ne (shape : Shape) : Json.null.kind ≠ shape.kind := by
  cases shape <;> exact Kind.noConfusion

/-- What is logged about a value of another kind than the shape asks for. -/
def Shape.refusal : Shape → FieldPath → Event
  | .object _ => .expectedObject
  | .emptyArray => .expectedArray
  | .arrayOf _ => .expectedArray

namespace Json

/-- A value of the kind of objects is an object. -/
theorem exists_of_kind_object {value : Json} (h : value.kind = .object) :
    ∃ members, value = .object members := by
  cases value <;> first
    | exact ⟨_, rfl⟩
    | cases h

/-- A value of the kind of arrays is an array. -/
theorem exists_of_kind_array {value : Json} (h : value.kind = .array) :
    ∃ items, value = .array items := by
  cases value <;> first
    | exact ⟨_, rfl⟩
    | cases h

end Json

namespace Shape

variable {scope : Validator} {outcome : Outcome}

/-- A value of another kind than the shape asks for is refused. -/
theorem evaluate_of_kind_ne {shape : Shape} {value : Json} (hkind : value.kind ≠ shape.kind)
    (scope : Validator) : shape.evaluate scope value = refuse scope.catalog shape.refusal := by
  cases shape <;> cases value <;> first
    | exact absurd rfl hkind
    | rfl

/-- It fails as a whole then. -/
theorem gives_of_kind_ne {shape : Shape} {value : Json} (hkind : value.kind ≠ shape.kind)
    (h : Gives (shape.evaluate scope value) outcome) : ∃ message, outcome = .failure message := by
  rw [evaluate_of_kind_ne hkind] at h
  exact gives_refuse h

/-- The outcome of an object is that of its fields. -/
theorem gives_object {fields : List Field} {members : Members}
    (h : Gives (Shape.evaluate scope (.object members) (.object fields)) outcome) :
    ∃ draft, Gives (Field.evaluateAll scope members {} fields) draft ∧
      outcome = draft.outcome := by
  obtain ⟨draft, hfields, h⟩ := gives_bind h
  -- Behind the fields there is only the event that the object was left.
  obtain ⟨⟨⟩, -, h⟩ := gives_bind h
  exact ⟨draft, hfields, gives_pure h⟩

/-- An array shape without element shape gives an outcome for the empty array only. -/
theorem gives_emptyArray {items : List Json}
    (h : Gives (Shape.evaluate scope (.array items) .emptyArray) outcome) :
    items = [] ∧ outcome = .passed (.array []) := by
  cases items with
  | nil => exact ⟨rfl, gives_pure h⟩
  | cons item rest =>
    -- With an item there, the run logs an event, reads its path and ends in the error.
    obtain ⟨⟨⟩, -, h⟩ := gives_bind h
    obtain ⟨walk, -, h⟩ := gives_bind h
    exact absurd h not_gives_throw

/-- The outcome of an array is that of its items. -/
theorem gives_arrayOf {element : Shape} {items : List Json}
    (h : Gives (Shape.evaluate scope (.array items) (.arrayOf element)) outcome) :
    ∃ outcomes, List.Forall₂ (fun item outcome => Gives (element.evaluate scope item) outcome)
      items outcomes ∧ outcome = .ofItems outcomes := by
  cases items with
  | nil =>
    -- The empty array passes before the element shape is looked at.
    exact ⟨[], .nil, gives_pure h⟩
  | cons item rest =>
    obtain ⟨outcomes, hitems, h⟩ := gives_bind h
    obtain ⟨⟨⟩, -, h⟩ := gives_bind h
    exact ⟨outcomes, gives_eachItem hitems, gives_pure h⟩

end Shape

namespace Field

/-- A leaf field is looked up and goes to its rule, one step inside. -/
theorem evaluate_leaf (scope : Validator) (members : Members) (draft : Draft) (name : String) :
    Field.evaluate scope members draft (.leaf name) =
      inside (.field name)
        (match Members.present? name members with
          | none => do return draft.fail name (← require scope.catalog)
          | some value => Evaluation.leaf scope name value draft) :=
  rfl

/-- A structured field is looked up and goes to the validator in charge of it, one step inside. -/
theorem evaluate_nested (scope : Validator) (members : Members) (draft : Draft) (name : String)
    (shape : Shape) :
    Field.evaluate scope members draft (.nested name shape) =
      inside (.field name)
        (match Members.present? name members with
          | none => do return draft.fail name (← require scope.catalog)
          | some value => do
            let inner ← delegate scope name
            return draft.splice name (← shape.evaluate inner value)) :=
  rfl

variable {scope : Validator} {members : Members} {draft result : Draft} {name : String}

/-- A field whose value is missing or null fails with a message, one step inside. -/
theorem evaluate_of_absent {field : Field} (absent : Members.present? field.name members = none)
    (scope : Validator) (draft : Draft) :
    field.evaluate scope members draft =
      inside (.field field.name) (do
        return draft.fail field.name (← require scope.catalog)) := by
  -- Both kinds of field look their value up before anything else.
  cases field with
  | leaf name =>
    rw [name_leaf] at absent ⊢
    rw [evaluate_leaf, absent]
  | nested name shape =>
    rw [name_nested] at absent ⊢
    rw [evaluate_nested, absent]

/-- A field without a value fails with a message that the catalog can give. -/
theorem gives_fail_of_absent {field : Field}
    (absent : Members.present? field.name members = none)
    (h : Gives (field.evaluate scope members draft) result) :
    ∃ message, Gives (require scope.catalog) message ∧
      result = draft.fail field.name message := by
  rw [evaluate_of_absent absent] at h
  obtain ⟨message, hmessage, hdraft⟩ := gives_bind (gives_inside h)
  exact ⟨message, hmessage, gives_pure hdraft⟩

/-- A field whose value is missing or null fails. -/
theorem gives_of_absent {field : Field} (absent : Members.present? field.name members = none)
    (h : Gives (field.evaluate scope members draft) result) :
    ∃ message, result = draft.fail field.name message := by
  obtain ⟨message, -, hresult⟩ := gives_fail_of_absent absent h
  exact ⟨message, hresult⟩

/-- A leaf field goes to its rule. -/
theorem gives_leaf {value : Json} (present : Members.present? name members = some value)
    (h : Gives (Field.evaluate scope members draft (.leaf name)) result) :
    result = draft.judge (scope.ruleFor name) ⟨name, value⟩ := by
  unfold Members.present? at present
  have hinner := gives_inside h
  rw [present] at hinner
  exact Evaluation.gives_leaf hinner

/-- The trees of a structured field are those of its value in its own scope. -/
theorem gives_nested {shape : Shape} {value : Json}
    (present : Members.present? name members = some value)
    (h : Gives (Field.evaluate scope members draft (.nested name shape)) result) :
    ∃ outcome, Gives (shape.evaluate (scope.scopeFor name) value) outcome ∧
      result = draft.splice name outcome := by
  unfold Members.present? at present
  have hinner := gives_inside h
  rw [present] at hinner
  -- First the validator is looked up, then the value is evaluated by it.
  obtain ⟨inner, hscope, hinner⟩ := gives_bind hinner
  obtain ⟨outcome, hvalue, hinner⟩ := gives_bind hinner
  rw [gives_delegate hscope] at hvalue
  exact ⟨outcome, hvalue, gives_pure hinner⟩

/-- No fields leave the draft as it was. -/
theorem gives_nil (h : Gives (Field.evaluateAll scope members draft []) result) :
    result = draft :=
  gives_pure h

/-- Fields are evaluated one by one. -/
theorem gives_cons {field : Field} {rest : List Field}
    (h : Gives (Field.evaluateAll scope members draft (field :: rest)) result) :
    ∃ middle, Gives (field.evaluate scope members draft) middle ∧
      Gives (Field.evaluateAll scope members middle rest) result :=
  gives_bind h

end Field

end DocShape
