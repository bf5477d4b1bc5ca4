import DocShape.Proofs.Validator.Journals

/-!
# `DocShape.Proofs.Validator.Parallel`: two runs next to each other

Two validators are compared by evaluating one value twice. `Evaluation.Parallel` says of two parts
of a walk that they end alike, with results that match or with one error. On the way both make the
same calls (`Note.isCall`): they ask the same catalogs for messages and put the same values to a
test, in the same order. Events of the log may differ.

The lemmas follow the parts of an evaluation. How results have to match is left open, and each
comparison says it for itself. Every evaluation is parallel to itself, with equal results
(`compositional_parallel`). `Session.calls_eq_of_run` takes the calls from walks to validations.
-/

set_option autoImplicit false

namespace DocShape

/-- Whether the note tells of a call: that a message was asked for or that a test was made. -/
def Note.isCall : Note → Bool
  | event _ => false
  | _ => true

/-- Two walks that are the same but for the events that they logged. -/
structure Walk.Beside (walk other : Walk) : Prop where
  counters : walk.counters = other.counters
  path : walk.path = other.path
  journal : walk.journal.filter Note.isCall = other.journal.filter Note.isCall

namespace Walk.Beside

variable {walk other : Walk}

/-- Two walks start beside each other if their counters stand alike. -/
theorem start {counters others : Counters} (h : counters = others) :
    (Walk.start counters).Beside (Walk.start others) :=
  ⟨h, rfl, rfl⟩

/-- Walks stay beside each other if the same calls are written to both. -/
theorem write (beside : walk.Beside other) {notes others : List Note}
    (h : notes.filter Note.isCall = others.filter Note.isCall) :
    (walk.write notes).Beside (other.write others) where
  counters := beside.counters
  path := beside.path
  journal := by
    simp only [Walk.write, List.filter_append]
    -- Old and new calls are picked out one after another.
    rw [beside.journal, h]

/-- Walks stay beside each other when both take the same step. -/
theorem enter (beside : walk.Beside other) (step : PathStep) :
    (walk.enter step).Beside (other.enter step) :=
  ⟨beside.counters, congrArg (· ++ [step]) beside.path, beside.journal⟩

/-- Walks stay beside each other when both step back. -/
theorem leave (beside : walk.Beside other) : walk.leave.Beside other.leave :=
  ⟨beside.counters, congrArg List.dropLast beside.path, beside.journal⟩

/-- Walks stay beside each other when both ask the same catalog. -/
theorem required (beside : walk.Beside other) (catalog : Catalog) :
    (walk.required catalog).Beside (other.required catalog) where
  counters := congrArg catalog.advance beside.counters
  path := beside.path
  journal := by
    simp only [Walk.required, List.filter_append]
    -- The call is noted with its message, which the counters decide.
    rw [beside.journal, beside.counters]

end Walk.Beside

namespace Evaluation

variable {α β γ δ : Type}

/-- Two parts end alike: both with results that match, or both with the same error. -/
inductive EndBeside (same : α → β → Prop) :
    EStateM.Result ValidateError Walk α → EStateM.Result ValidateError Walk β → Prop where
  | ok {result : α} {other : β} {after otherAfter : Walk} (results : same result other)
    (beside : after.Beside otherAfter) : EndBeside same (.ok result after) (.ok other otherAfter)
  | error {after otherAfter : Walk} (error : ValidateError) (beside : after.Beside otherAfter) :
    EndBeside same (.error error after) (.error error otherAfter)

/-- Two parts that start beside each other end alike and beside each other. -/
def Parallel (same : α → β → Prop) (act : Evaluation α) (other : Evaluation β) : Prop :=
  ∀ walk otherWalk, walk.Beside otherWalk →
    EndBeside same (act.run walk) (other.run otherWalk)

namespace Parallel

variable {same : α → β → Prop}

/-- Two results that match are parallel. -/
theorem pure {value : α} {other : β} (h : same value other) :
    Parallel same (Pure.pure value) (Pure.pure other) :=
  fun _ _ beside => .ok h beside

/-- Parts that only write notes, with the same calls among them. -/
theorem of_run {act : Evaluation α} {other : Evaluation β} {value : α} {otherValue : β}
    (notes otherNotes : FieldPath → List Note) (h : same value otherValue)
    (hnotes : ∀ path, (notes path).filter Note.isCall = (otherNotes path).filter Note.isCall)
    (hrun : ∀ walk, act.run walk = .ok value (walk.write (notes walk.path)))
    (hother : ∀ walk, other.run walk = .ok otherValue (walk.write (otherNotes walk.path))) :
    Parallel same act other := by
  intro walk otherWalk beside
  rw [hrun, hother, beside.path]
  exact .ok h (beside.write (hnotes otherWalk.path))

/-- Events are no calls. -/
theorem log (event otherEvent : FieldPath → Event) :
    Parallel Eq (Evaluation.log event) (Evaluation.log otherEvent) :=
  .of_run (fun path => [.event (event path)]) (fun path => [.event (otherEvent path)]) rfl
    (fun _ => rfl) (run_log event) (run_log otherEvent)

/-- Two parts in a row are parallel to two others if the first parts are and the second ones are
for all results that match. -/
theorem bind {first : Evaluation α} {other : Evaluation β} {next : α → Evaluation γ}
    {otherNext : β → Evaluation δ} {sameNext : γ → δ → Prop} (h : Parallel same first other)
    (hnext : ∀ result otherResult, same result otherResult →
      Parallel sameNext (next result) (otherNext otherResult)) :
    Parallel sameNext (first >>= next) (other >>= otherNext) := by
  intro walk otherWalk beside
  have hfirst := h walk otherWalk beside
  rw [EStateM.run_bind, EStateM.run_bind]
  generalize first.run walk = ended at hfirst ⊢
  generalize other.run otherWalk = otherEnded at hfirst ⊢
  -- Either both go on, beside each other, or neither does.
  cases hfirst with
  | ok results beside => exact hnext _ _ results _ _ beside
  | error error beside => exact .error error beside

/-- Only results that the first part can give are compared. -/
theorem gives {same : α → β → Prop} {act : Evaluation α} {other : Evaluation β}
    (h : Parallel same act other) :
    Parallel (fun result otherResult => same result otherResult ∧ Gives act result) act
      other := by
  intro walk otherWalk beside
  have hended := h walk otherWalk beside
  -- The run itself shows that its result can be given.
  generalize hrun : act.run walk = ended at hended ⊢
  generalize other.run otherWalk = otherEnded at hended ⊢
  cases hended with
  | @ok result _ after _ results beside => exact .ok ⟨results, walk, after, hrun⟩ beside
  | error error beside => exact .error error beside

/-- Parallel parts stay so one step further inside. -/
theorem inside {act : Evaluation α} {other : Evaluation β} (step : PathStep)
    (h : Parallel same act other) :
    Parallel same (Evaluation.inside step act) (Evaluation.inside step other) := by
  intro walk otherWalk beside
  have hact := h _ _ (beside.enter step)
  rw [run_inside, run_inside]
  -- An error is passed on with the walk still inside, on both sides alike.
  generalize act.run (walk.enter step) = ended at hact ⊢
  generalize other.run (otherWalk.enter step) = otherEnded at hact ⊢
  cases hact with
  | ok results beside => exact .ok results beside.leave
  | error error beside => exact .error error beside

/-- Asking one catalog twice gives the same message, since the counters are the same. -/
theorem require (catalog : Catalog) :
    Parallel Eq (Evaluation.require catalog) (Evaluation.require catalog) := by
  intro walk otherWalk beside
  rw [run_require, run_require, beside.counters]
  exact .ok rfl (beside.required catalog)

/-- The error names the place where the walk is, which is the same for both. -/
theorem giveUp {same : Outcome → Outcome → Prop} (length : Nat) :
    Parallel same (Evaluation.giveUp length) (Evaluation.giveUp length) := by
  intro walk otherWalk beside
  have hwrite := beside.write
    (rfl : [Note.event (.shapeNotSpecified walk.path length)].filter Note.isCall = _)
  -- Two errors are one error only with equal texts, so the paths are made equal first.
  show EndBeside _ (.error (.shapeNotSpecified walk.path.text length) _)
    (.error (.shapeNotSpecified otherWalk.path.text length) _)
  rw [← beside.path]
  exact .error _ hwrite

/-- Items are evaluated in parallel if each of them is. -/
theorem eachItem {same : Outcome → Outcome → Prop} {act other : Json → Evaluation Outcome}
    (h : ∀ item, Parallel same (act item) (other item)) (items : List Json) (position : Nat) :
    Parallel (List.Forall₂ same) (Evaluation.eachItem act position items)
      (Evaluation.eachItem other position items) := by
  induction items generalizing position with
  | nil => exact pure .nil
  | cons item rest ih =>
    -- What is said of two outcomes need not be equality, so the lists match item by item.
    refine ((h item).inside (.index position)).bind fun outcome _ houtcome => ?_
    exact (ih (position + 1)).bind fun outcomes _ houtcomes => pure (.cons houtcome houtcomes)

end Parallel

/-- Every evaluation is parallel to itself. -/
theorem compositional_parallel :
    Compositional (fun _ act => Parallel Eq act act) fun _ => True where
  write notes hrun := .of_run notes notes rfl (fun _ => rfl) hrun hrun
  require _ := .require _
  giveUp length := .giveUp length
  inside step h := h.inside step
  -- The second part is known to be parallel to itself only for results that can be given.
  bind hfirst hnext := hfirst.gives.bind fun middle _ ⟨heq, hgives⟩ => heq ▸ hnext middle hgives

/-- Putting a leaf field to its rule calls the test, if there is one. -/
theorem filter_leafNotes (scope : Validator) (name : String) (value : Json) (path : FieldPath) :
    (leafNotes scope name value path).filter Note.isCall =
      if (scope.ruleFor name).hasTest then [.tested path value] else [] := by
  unfold leafNotes
  cases (scope.resolve name).isNested <;> cases (scope.ruleFor name).hasTest <;> rfl

/-- Rules with the same test make the same call. Their setters may differ. -/
theorem leaf_parallel {scope other : Validator} {name : String} {value : Json}
    {draft otherDraft : Draft} {same : Draft → Draft → Prop}
    (test : (scope.ruleFor name).test = (other.ruleFor name).test)
    (judged : same (draft.judge (scope.ruleFor name) ⟨name, value⟩)
      (otherDraft.judge (other.ruleFor name) ⟨name, value⟩)) :
    Parallel same (leaf scope name value draft) (leaf other name value otherDraft) := by
  refine .of_run (leafNotes scope name value) (leafNotes other name value) judged (fun path => ?_)
    (run_leaf scope name value draft) (run_leaf other name value otherDraft)
  rw [filter_leafNotes, filter_leafNotes]
  -- The note of a call names the place and the value, and those are the same on both sides.
  unfold Rule.hasTest
  rw [test]

/-- Handing a field over is no call. -/
theorem filter_delegateNotes (scope : Validator) (name : String) (path : FieldPath) :
    (delegateNotes scope name path).filter Note.isCall = [] := by
  unfold delegateNotes
  cases scope.resolve name <;> rfl

/-- To hand a structured field to its validator is no call, whichever it is. -/
theorem delegate_parallel {scope other : Validator} {name : String}
    {same : Validator → Validator → Prop}
    (scopes : same (scope.scopeFor name) (other.scopeFor name)) :
    Parallel same (delegate scope name) (delegate other name) := by
  refine .of_run (delegateNotes scope name) (delegateNotes other name) scopes (fun path => ?_)
    (run_delegate scope name) (run_delegate other name)
  rw [filter_delegateNotes, filter_delegateNotes]

end Evaluation

/-! ### Calls of a session -/

/-- Writing nothing changes nothing. -/
theorem Store.write_nil (store : Store) : store.write [] = store := by
  simp [Store.write]

namespace Session

variable {α : Type}

/-- The messages that a session asks for and the tests that it makes, in order. -/
def calls (act : Session α) (store : Store) : List Note :=
  ((act.after store).journal.drop store.journal.length).filter Note.isCall

/-- The calls of a session are those among the notes that it wrote. -/
theorem calls_of_run {act : Session α} {store : Store} {answer : α} {after : Store}
    {notes : List Note} (hrun : act.run store = (answer, after))
    (hjournal : after.journal = store.journal ++ notes) :
    act.calls store = notes.filter Note.isCall := by
  have hdrop : (act.after store).journal.drop store.journal.length = notes := by
    show (act.run store).2.journal.drop _ = notes
    rw [hrun]
    show after.journal.drop _ = notes
    rw [hjournal, List.drop_left]
  unfold calls
  rw [hdrop]

/-- Two sessions that follow walks beside each other make the same calls, if what they note behind
the walks has the same calls. -/
theorem calls_eq_of_run {act other : Session α} {store otherStore : Store}
    {answer otherAnswer : α} {after otherAfter : Walk} {notes otherNotes : List Note}
    (hrun : act.run store = (answer, (store.follow after).write notes))
    (hother : other.run otherStore =
      (otherAnswer, (otherStore.follow otherAfter).write otherNotes))
    (beside : after.Beside otherAfter)
    (hnotes : notes.filter Note.isCall = otherNotes.filter Note.isCall) :
    act.calls store = other.calls otherStore := by
  rw [calls_of_run hrun (List.append_assoc ..), calls_of_run hother (List.append_assoc ..)]
  rw [List.filter_append, List.filter_append, beside.journal, hnotes]

end Session

end DocShape
