import DocShape.Event
import DocShape.Proofs.Validator.Lookup
import Mathlib.Data.List.Forall2

/-!
# `DocShape.Proofs.Validator.Dues`: where messages are due

A message is due where a declared field is missing or null, and where a value is no container of
the kind its shape asks for. `Shape.dues` lists the places in the order of a walk, each with the
catalog that is charged: a missing field is charged to the validator of its object, a value of the
wrong kind to the validator in charge of the value.

Dues that are settled in order move the counters on. `Due.forall₂_turns` says which turn each one
gets: those charged to one counter get the turns from where it stands, one after another, whatever
other counters are charged in between.
-/

set_option autoImplicit false

namespace DocShape

namespace Catalog

/-- The counter that a catalog uses. -/
def counter? : Catalog → Option CounterId
  | fixed _ => none
  | numbered _ counter => some counter

/-- The message of a catalog at a turn. -/
def messageAt (turn : Nat) : Catalog → String
  | fixed message => message
  | numbered messages _ => messages turn

/-- The message that is due is the one at the turn that the counter shows. -/
theorem message_eq_messageAt {catalog : Catalog} {counter : CounterId}
    (h : catalog.counter? = some counter) (counters : Counters) :
    catalog.message counters = catalog.messageAt (counters counter) := by
  cases catalog with
  | fixed message => cases h
  | numbered messages other =>
    cases h
    rfl

/-- A message moves the counter of its catalog on, and no other. -/
theorem advance_apply (catalog : Catalog) (counters : Counters) (counter : CounterId) :
    catalog.advance counters counter =
      if catalog.counter? = some counter then counters counter + 1 else counters counter := by
  cases catalog with
  | fixed message => rfl
  | numbered messages other =>
    show (if counter = other then counters other + 1 else counters counter) = _
    by_cases h : counter = other
    · subst h
      simp [counter?]
    · simp [counter?, h, Ne.symm h]

end Catalog

/-- A place where a message is due, and the catalog that has to give it. -/
structure Due where
  /-- The path to the place, from the value at work. -/
  path : FieldPath
  catalog : Catalog

namespace Due

/-- The due as it is seen from one step outside. -/
def within (step : PathStep) (due : Due) : Due :=
  { due with path := step :: due.path }

/-- Whether a due is charged to a counter. -/
def chargedTo (counter : CounterId) (due : Due) : Bool :=
  due.catalog.counter? = some counter

/-- The messages of dues that are settled in order. -/
def messages (counters : Counters) : List Due → List String
  | [] => []
  | due :: rest => due.catalog.message counters :: messages (due.catalog.advance counters) rest

/-- The counters once dues are settled in order. -/
def settle (counters : Counters) : List Due → Counters
  | [] => counters
  | due :: rest => settle (due.catalog.advance counters) rest

variable {counters : Counters} {dues others : List Due}

/-- Dues in two groups are settled group by group. -/
theorem settle_append (counters : Counters) (dues others : List Due) :
    settle counters (dues ++ others) = settle (settle counters dues) others := by
  induction dues generalizing counters with
  | nil => rfl
  | cons due rest ih => exact ih (due.catalog.advance counters)

/-- The messages of the second group are those from where the first one leaves the counters. -/
theorem messages_append (counters : Counters) (dues others : List Due) :
    messages counters (dues ++ others) =
      messages counters dues ++ messages (settle counters dues) others := by
  induction dues generalizing counters with
  | nil => rfl
  | cons due rest ih =>
    simp only [List.cons_append, messages, settle]
    rw [ih]

/-- From one step outside, dues are settled in the same way. -/
theorem settle_within (counters : Counters) (step : PathStep) (dues : List Due) :
    settle counters (dues.map (within step)) = settle counters dues := by
  induction dues generalizing counters with
  | nil => rfl
  | cons due rest ih => exact ih (due.catalog.advance counters)

/-- Where a message is due does not change it. -/
theorem messages_within (counters : Counters) (step : PathStep) (dues : List Due) :
    messages counters (dues.map (within step)) = messages counters dues := by
  induction dues generalizing counters with
  | nil => rfl
  | cons due rest ih =>
    simp only [List.map_cons, messages]
    rw [show (due.within step).catalog = due.catalog from rfl, ih]

/-- A counter moves on by the number of dues that are charged to it. -/
theorem settle_apply (counters : Counters) (dues : List Due) (counter : CounterId) :
    settle counters dues counter =
      counters counter + (dues.filter (chargedTo counter)).length := by
  -- Along the dues. Each is charged to this counter or leaves it where it is.
  induction dues generalizing counters with
  | nil => rfl
  | cons due rest ih =>
    simp only [settle, List.filter_cons]
    rw [ih, Catalog.advance_apply]
    by_cases h : due.catalog.counter? = some counter
    · simp only [chargedTo, h, if_true, decide_true, List.length_cons]
      omega
    · simp [chargedTo, h]

/-- What is so for each due with its message is so for the dues that are charged to one counter,
with the messages at the turns from where the counter stands. -/
theorem forall₂_turns {holds : Due → String → Prop} (counter : CounterId)
    (h : List.Forall₂ holds dues (messages counters dues)) :
    List.Forall₂ (fun due turn => holds due (due.catalog.messageAt turn))
      (dues.filter (chargedTo counter))
      (List.range' (counters counter) (dues.filter (chargedTo counter)).length) := by
  -- Along the dues, for all counters: each due may move the counter on for those behind it.
  induction dues generalizing counters with
  | nil => exact .nil
  | cons due rest ih =>
    obtain ⟨hdue, hrest⟩ := List.forall₂_cons.mp h
    have hturns := ih hrest
    rw [Catalog.advance_apply] at hturns
    by_cases hcounter : due.catalog.counter? = some counter
    · rw [if_pos hcounter] at hturns
      rw [Catalog.message_eq_messageAt hcounter] at hdue
      have hcharged : chargedTo counter due = true := decide_eq_true hcounter
      rw [List.filter_cons_of_pos hcharged, List.length_cons, List.range'_succ]
      exact .cons hdue hturns
    · -- Another counter is charged, so the turns of this one go on as they were.
      rw [if_neg hcounter] at hturns
      have hcharged : ¬chargedTo counter due = true := by simpa [chargedTo] using hcounter
      rw [List.filter_cons_of_neg hcharged]
      exact hturns

end Due

mutual

/-- The places in a value where messages are due, in the order of a walk. -/
def Shape.dues (scope : Validator) (value : Json) : Shape → List Due
  | .object fields =>
    match value with
    | .object members => Field.allDues scope members fields
    | _ => [⟨[], scope.catalog⟩]
  | .emptyArray =>
    match value with
    | .array _ => []
    | _ => [⟨[], scope.catalog⟩]
  | .arrayOf element =>
    match value with
    | .array items => items.zipIdx.flatMap fun (item, position) =>
      (element.dues scope item).map (Due.within (.index position))
    | _ => [⟨[], scope.catalog⟩]

/-- The places in the value of a field, or the field itself if it has no value. -/
def Field.dues (scope : Validator) (members : Members) : Field → List Due
  | .leaf name =>
    match Members.present? name members with
    | none => [⟨[.field name], scope.catalog⟩]
    | some _ => []
  | .nested name shape =>
    match Members.present? name members with
    | none => [⟨[.field name], scope.catalog⟩]
    | some value => (shape.dues (scope.scopeFor name) value).map (Due.within (.field name))

/-- The places in the values of fields, in their order. -/
def Field.allDues (scope : Validator) (members : Members) : List Field → List Due
  | [] => []
  | field :: rest => field.dues scope members ++ Field.allDues scope members rest

end

end DocShape
