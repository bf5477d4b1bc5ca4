import DocShape.Proofs.Session.Reading
import DocShape.Proofs.Validator.Parts

/-!
# `DocShape.Proofs.Validator.Journals`: a journal is only written to

No part of an evaluation looks at the journal: with other notes before it, it does the same and
writes the same notes behind them (`Evaluation.Appends`). So a validation is decided by the
counters of its catalogs. `Validator.run_validateShape` says what it answers and how it leaves the
store, from an evaluation that starts with an empty journal.
-/

set_option autoImplicit false

namespace DocShape

namespace Walk

/-- The walk with notes before those of its journal. -/
def behind (earlier : List Note) (walk : Walk) : Walk :=
  { walk with journal := earlier ++ walk.journal }

/-- The walk at the root of a document, with nothing noted so far. -/
def start (counters : Counters) : Walk :=
  { counters, journal := [], path := [] }

/-- Notes are written behind those that were there. -/
theorem behind_write (earlier notes : List Note) (walk : Walk) :
    (walk.behind earlier).write notes = (walk.write notes).behind earlier := by
  simp [behind, write]

/-- A catalog counts the same whatever was written before. -/
theorem behind_required (earlier : List Note) (catalog : Catalog) (walk : Walk) :
    (walk.behind earlier).required catalog = (walk.required catalog).behind earlier := by
  simp [behind, required]

end Walk

/-- A store starts a walk behind its journal. -/
theorem Store.walk_eq (store : Store) :
    store.walk = (Walk.start store.counters).behind store.journal := by
  simp [Store.walk, Walk.start, Walk.behind]

namespace Evaluation

variable {α β : Type}

/-- What an evaluation ends with, with notes before those of its journal. -/
def behind (earlier : List Note) :
    EStateM.Result ValidateError Walk α → EStateM.Result ValidateError Walk α
  | .ok result after => .ok result (after.behind earlier)
  | .error error after => .error error (after.behind earlier)

/-- With other notes before it, the part does the same. -/
def Appends (act : Evaluation α) : Prop :=
  ∀ (earlier : List Note) (walk : Walk),
    act.run (walk.behind earlier) = behind earlier (act.run walk)

/-- Two parts in a row append to a journal if both do. -/
theorem Appends.bind {first : Evaluation α} {next : α → Evaluation β} (hfirst : Appends first)
    (hnext : ∀ middle, Gives first middle → Appends (next middle)) :
    Appends (first >>= next) := by
  intro earlier walk
  rw [EStateM.run_bind, EStateM.run_bind, hfirst earlier walk]
  -- The second part is run from the walk that the first left, with the same notes before it.
  cases hrun : first.run walk with
  | ok middle between => exact hnext middle ⟨walk, between, hrun⟩ earlier between
  | error error after => rfl

/-- A part one step further inside appends to a journal if it does by itself. -/
theorem Appends.inside {act : Evaluation α} (step : PathStep) (h : Appends act) :
    Appends (Evaluation.inside step act) := by
  intro earlier walk
  have henter : (walk.behind earlier).enter step = (walk.enter step).behind earlier := rfl
  rw [run_inside, run_inside, henter, h earlier (walk.enter step)]
  cases act.run (walk.enter step) <;> rfl

/-- To ask for a message appends a note of the call. -/
theorem Appends.require (catalog : Catalog) : Appends (Evaluation.require catalog) := by
  intro earlier walk
  rw [run_require, run_require, Walk.behind_required]
  rfl

/-- The error names the place where the walk is, and notes do not move it. -/
theorem Appends.giveUp (length : Nat) : Appends (Evaluation.giveUp length) := by
  intro earlier walk
  unfold Evaluation.giveUp
  rw [EStateM.run_bind, EStateM.run_bind, run_log, run_log, Walk.behind_write]
  rfl

/-- All parts only write to the journal. -/
theorem compositional_appends : Compositional (fun _ act => Appends act) fun _ => True where
  write notes hrun earlier walk := by
    -- What is written depends on the path of the walk, which `behind` does not touch.
    rw [hrun, hrun, Walk.behind_write]
    rfl
  require _ := .require _
  giveUp length := .giveUp length
  inside step h := h.inside step
  bind hfirst hnext := hfirst.bind hnext

end Evaluation

open Evaluation

/-- The evaluation along a shape only writes to the journal. -/
theorem Shape.appends (shape : Shape) (scope : Validator) (value : Json) :
    Appends (shape.evaluate scope value) :=
  compositional_appends.evaluate shape (fun _ _ => trivial) value

namespace Store

/-- The store after a walk, with the notes of the walk behind its own. -/
def follow (store : Store) (walk : Walk) : Store :=
  { store with counters := walk.counters, journal := store.journal ++ walk.journal }

end Store

/-- A validation is an evaluation from the counters of the store. It leaves its notes there, and a
last one if it came to its end. -/
theorem Validator.run_validateShape (validator : Validator) (shape : Shape) (document : Json)
    (store : Store) :
    (validator.validateShape shape document).run store =
      match (shape.evaluate validator document).run (Walk.start store.counters) with
      | .ok outcome after =>
        (.ok outcome, (store.follow after).write [.event (.finished outcome.isValid)])
      | .error error after => (.error error, store.follow after) := by
  have happends := shape.appends validator document store.journal (Walk.start store.counters)
  unfold validateShape
  -- The walk starts with the journal of the store. It is moved out in front of the run.
  rw [StateT.run_bind, run_walk, Store.walk_eq, happends]
  cases (shape.evaluate validator document).run (Walk.start store.counters) <;> rfl

end DocShape
