import DocShape.Validator.Validate
import DocShape.Proofs.Validator.Runs

/-!
# `DocShape.Proofs.Validator.Answers`: what a validation answers

A session changes a store and gives an answer. A validation along a shape answers what the
evaluation of the shape gives from the root of the document, with the counters and the journal of
the store.
-/

set_option autoImplicit false

namespace DocShape

/-- What a session answers when it starts from a store. -/
def Session.answer {α : Type} (act : Session α) (store : Store) : α :=
  (act.run store).1

/-- The walk that starts at the root of a document. -/
def Store.walk (store : Store) : Walk :=
  { counters := store.counters, journal := store.journal, path := [] }

namespace Validator

/-- A walk leaves its counters and its journal in the store, also when an error ends it. -/
theorem run_walk {α : Type} (act : Evaluation α) (store : Store) :
    (walk act).run store =
      match act.run store.walk with
      | .ok result after =>
        (.ok result, { store with counters := after.counters, journal := after.journal })
      | .error error after =>
        (.error error, { store with counters := after.counters, journal := after.journal }) := by
  -- A session keeps its store when it fails. So the walk left behind is kept on both ends.
  cases hrun : act.run store.walk with
  | ok result after =>
    unfold Store.walk at hrun
    simp only [walk, StateT.run_bind, StateT.run_get, pure_bind, hrun]
    rfl
  | error error after =>
    unfold Store.walk at hrun
    simp only [walk, StateT.run_bind, StateT.run_get, pure_bind, hrun]
    rfl

/-- A validation answers what the evaluation gives, or its error. -/
theorem answer_validateShape (validator : Validator) (shape : Shape) (document : Json)
    (store : Store) :
    (validator.validateShape shape document).answer store =
      match (shape.evaluate validator document).run store.walk with
      | .ok outcome _ => .ok outcome
      | .error error _ => .error error := by
  unfold Session.answer validateShape
  rw [StateT.run_bind, run_walk]
  -- Behind the walk only the last event is written, which is no part of the answer.
  cases (shape.evaluate validator document).run store.walk <;> rfl

/-- An outcome that a validation answers is one that the evaluation gives. -/
theorem gives_of_answer {validator : Validator} {shape : Shape} {document : Json} {store : Store}
    {outcome : Outcome}
    (h : (validator.validateShape shape document).answer store = .ok outcome) :
    (shape.evaluate validator document).Gives outcome := by
  rw [answer_validateShape] at h
  cases hrun : (shape.evaluate validator document).run store.walk with
  | ok found after =>
    rw [hrun] at h
    cases h
    exact ⟨store.walk, after, hrun⟩
  | error error after =>
    rw [hrun] at h
    cases h

end Validator

end DocShape
