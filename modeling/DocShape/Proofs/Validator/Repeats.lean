import DocShape.Proofs.Validator.Answers
import DocShape.Proofs.Validator.Parts

/-!
# `DocShape.Proofs.Validator.Repeats`: evaluations that can be repeated

A numbered catalog gives another message each time, so a second evaluation of a document can
fail in other words than the first. If every catalog that is used has one message only, an
evaluation gives the same result from every walk (`Evaluation.Repeatable`), and a validation
answers the same from every store.
-/

set_option autoImplicit false

namespace DocShape

/-- The catalog gives one message, however often it was asked before. -/
def Catalog.Fixed (catalog : Catalog) : Prop :=
  ∃ message, ∀ counters, catalog.message counters = message

/-- Every catalog that the validator uses gives one message. -/
def Validator.FixedMessages (validator : Validator) : Prop :=
  ∀ other, validator.Uses other → other.catalog.Fixed

namespace Evaluation

variable {α β : Type}

/-- What the part can give from one walk it gives from every walk. -/
def Repeatable (act : Evaluation α) : Prop :=
  ∀ result, Gives act result → ∀ walk, ∃ after, act.run walk = .ok result after

/-- A part that gives the same whatever the walk is can be repeated. -/
theorem Repeatable.of_run {act : Evaluation α} {value : α}
    (h : ∀ walk, ∃ after, act.run walk = .ok value after) : Repeatable act := by
  rintro result ⟨before, after, hrun⟩ walk
  obtain ⟨other, hbefore⟩ := h before
  rw [hbefore] at hrun
  cases hrun
  exact h walk

/-- A part that can be repeated can give one result only. -/
theorem Repeatable.unique {act : Evaluation α} {result other : α} (h : Repeatable act)
    (hresult : Gives act result) (hother : Gives act other) : result = other := by
  obtain ⟨before, after, hrun⟩ := hother
  obtain ⟨again, hagain⟩ := h result hresult before
  rw [hrun] at hagain
  cases hagain
  rfl

/-- Two parts in a row can be repeated if both can. -/
theorem Repeatable.bind {first : Evaluation α} {next : α → Evaluation β}
    (hfirst : Repeatable first)
    (hnext : ∀ middle, Gives first middle → Repeatable (next middle)) :
    Repeatable (first >>= next) := by
  intro result h walk
  obtain ⟨middle, hmiddle, hresult⟩ := gives_bind h
  -- The same middle result again, though behind it the walk may be another one.
  obtain ⟨between, hrun⟩ := hfirst middle hmiddle walk
  obtain ⟨after, hafter⟩ := hnext middle hmiddle result hresult between
  refine ⟨after, ?_⟩
  rw [EStateM.run_bind, hrun]
  exact hafter

/-- A part that can be repeated can be one step further inside as well. -/
theorem Repeatable.inside {act : Evaluation α} (step : PathStep) (h : Repeatable act) :
    Repeatable (Evaluation.inside step act) := by
  intro result hgives walk
  obtain ⟨after, hrun⟩ := h result (gives_inside hgives) (walk.enter step)
  refine ⟨after.leave, ?_⟩
  rw [run_inside, hrun]

/-- This is where the catalog has to give one message. -/
theorem Repeatable.require {catalog : Catalog} (fixed : catalog.Fixed) :
    Repeatable (Evaluation.require catalog) := by
  obtain ⟨message, hmessage⟩ := fixed
  have hrun (walk : Walk) : (Evaluation.require catalog).run walk =
      .ok message (walk.required catalog) := by
    rw [run_require, hmessage]
  exact .of_run fun walk => ⟨_, hrun walk⟩

/-- All parts can be repeated where messages are fixed. -/
theorem compositional_repeatable :
    Compositional (fun _ act => Repeatable act) Catalog.Fixed where
  write notes hrun := .of_run fun walk => ⟨_, hrun walk⟩
  require fixed := .require fixed
  giveUp length outcome h := by
    -- An error gives nothing that would have to be repeated.
    obtain ⟨⟨⟩, -, h⟩ := gives_bind h
    obtain ⟨walk, -, h⟩ := gives_bind h
    exact absurd h not_gives_throw
  inside step h := h.inside step
  bind hfirst hnext := hfirst.bind hnext

end Evaluation

open Evaluation

/-- With fixed messages the evaluation along a shape can be repeated. -/
theorem Shape.repeatable (shape : Shape) {scope : Validator} (fixed : scope.FixedMessages)
    (value : Json) : Repeatable (shape.evaluate scope value) :=
  compositional_repeatable.evaluate shape fixed value

/-- With fixed messages a validation answers from every store what it can give from some walk. -/
theorem Validator.answer_of_gives {validator : Validator} {shape : Shape} {document : Json}
    {outcome : Outcome} (fixed : validator.FixedMessages)
    (h : Gives (shape.evaluate validator document) outcome) (store : Store) :
    (validator.validateShape shape document).answer store = .ok outcome := by
  obtain ⟨after, hrun⟩ := shape.repeatable fixed document outcome h store.walk
  rw [answer_validateShape, hrun]

end DocShape
