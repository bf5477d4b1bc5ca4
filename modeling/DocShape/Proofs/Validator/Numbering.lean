import DocShape.Proofs.Shape.RoundTrip
import DocShape.Proofs.Validator.Issues
import DocShape.Proofs.Validator.Journals

/-!
# `DocShape.Proofs.Validator.Numbering`: messages count on

The messages of a numbered catalog come in turn, one for each place where a message is due. None
is skipped, none is given twice, and none gets to another place. `Validation.messages_count_on`
says so of any number of validations in a row, whatever validators share a counter: the turns of
one validation go on where those of the one before it ended (`Validation.turns_of_answer`).
-/

set_option autoImplicit false

namespace DocShape

/-- A document that is validated along a shape. -/
structure Validation where
  validator : Validator
  shape : Shape
  document : Json

namespace Validation

/-- Where messages are due in the document. -/
def dues (validation : Validation) : List Due :=
  validation.shape.dues validation.validator validation.document

/-- The answer to a validation. -/
def answer (validation : Validation) : Session (Except ValidateError Outcome) :=
  validation.validator.validateShape validation.shape validation.document

/-- The answers to validations in order. -/
def answers : List Validation → Session (List (Except ValidateError Outcome))
  | [] => return []
  | validation :: rest => do
    let first ← validation.answer
    let others ← answers rest
    return first :: others

/-- The dues of validations in order, each with the outcome that has to hold its message. -/
def ledger (validations : List Validation) (outcomes : List Outcome) : List (Outcome × Due) :=
  (validations.zip outcomes).flatMap fun (validation, outcome) =>
    validation.dues.map fun due => (outcome, due)

/-- The dues that are charged to a counter. -/
def charged (counter : CounterId) (validations : List Validation) (outcomes : List Outcome) :
    List (Outcome × Due) :=
  (ledger validations outcomes).filter fun entry => entry.2.chargedTo counter

/-- The dues of the first validation come first. -/
theorem charged_cons (counter : CounterId) (validation : Validation) (rest : List Validation)
    (outcome : Outcome) (others : List Outcome) :
    charged counter (validation :: rest) (outcome :: others) =
      (validation.dues.filter (Due.chargedTo counter)).map (fun due => (outcome, due)) ++
        charged counter rest others := by
  simp only [charged, ledger, List.zip_cons_cons, List.flatMap_cons, List.filter_append,
    List.filter_map]
  rfl

/-- The outcome of one validation holds the messages that were due in it. -/
theorem turns_of_answer {validation : Validation} {store : Store} {outcome : Outcome}
    (distinct : validation.shape.DistinctNames)
    (answered : validation.answer.answer store = .ok outcome) (counter : CounterId) :
    List.Forall₂ (fun due turn => outcome.errorAt? due.path.pointer.text =
        some (.string (due.catalog.messageAt turn)))
      (validation.dues.filter (Due.chargedTo counter))
      (List.range' (store.counters counter)
        (validation.dues.filter (Due.chargedTo counter)).length) ∧
    (validation.answer.after store).counters counter =
      store.counters counter + (validation.dues.filter (Due.chargedTo counter)).length := by
  obtain ⟨validator, shape, document⟩ := validation
  have hrun := validator.run_validateShape shape document store
  -- The validation gave an outcome, so the evaluation did not end with an error.
  cases hevaluate : (shape.evaluate validator document).run (Walk.start store.counters) with
  | error error after =>
    rw [hevaluate] at hrun
    have hanswer : ((validator.validateShape shape document).run store).1 = .ok outcome :=
      answered
    rw [hrun] at hanswer
    cases hanswer
  | ok found after =>
    rw [hevaluate] at hrun
    have hanswer : ((validator.validateShape shape document).run store).1 = .ok outcome :=
      answered
    rw [hrun] at hanswer
    cases hanswer
    obtain ⟨hcounters, hdues⟩ := shape.issues distinct validator document _ _ _ hevaluate
    refine ⟨?_, ?_⟩
    · simp only [Outcome.errorAt?_pointer]
      exact Due.forall₂_turns counter hdues
    · show (((validator.validateShape shape document).run store).2).counters counter = _
      rw [hrun]
      show after.counters counter = _
      rw [hcounters]
      exact Due.settle_apply store.counters (shape.dues validator document) counter

/-- Validations in a row, all of which give an outcome, settle their dues in order. The dues that
are charged to one counter get the messages at the turns from where the counter stood, one for
each and none left out, and each message is in the tree of errors at the place where it was due.
Afterwards the counter has moved on by their number. -/
theorem messages_count_on {validations : List Validation} {store : Store}
    {outcomes : List Outcome}
    (parsed : ∀ validation ∈ validations,
      ∃ source limit, Shape.parse source limit = .ok validation.shape)
    (answered : (answers validations).answer store = outcomes.map .ok) (counter : CounterId) :
    List.Forall₂ (fun entry turn => entry.1.errorAt? entry.2.path.pointer.text =
        some (.string (entry.2.catalog.messageAt turn)))
      (charged counter validations outcomes)
      (List.range' (store.counters counter) (charged counter validations outcomes).length) ∧
    ((answers validations).after store).counters counter =
      store.counters counter + (charged counter validations outcomes).length := by
  -- Along the validations, for all stores: each one starts where the one before it left the
  -- counters.
  induction validations generalizing store outcomes with
  | nil => exact ⟨.nil, rfl⟩
  | cons validation rest ih =>
    obtain ⟨⟨source, limit, hparse⟩, hrest⟩ := List.forall_mem_cons.mp parsed
    have hanswers : validation.answer.answer store ::
        (answers rest).answer (validation.answer.after store) = outcomes.map .ok := answered
    cases outcomes with
    | nil => cases hanswers
    | cons outcome others =>
      obtain ⟨hfirst, hothers⟩ := List.cons_eq_cons.mp hanswers
      have distinct := (Shape.wellFormed_of_parse hparse).1.distinct
      obtain ⟨hturns, hcounter⟩ := turns_of_answer distinct hfirst counter
      obtain ⟨hturnsRest, hcounterRest⟩ := ih hrest hothers
      rw [hcounter] at hturnsRest hcounterRest
      rw [charged_cons, List.length_append, List.length_map]
      refine ⟨?_, ?_⟩
      · -- The turns of the other validations go on where those of the first one end.
        rw [← List.range'_append_1]
        exact List.rel_append (List.forall₂_map_left_iff.mpr hturns) hturnsRest
      · show ((answers rest).after (validation.answer.after store)).counters counter = _
        rw [hcounterRest, Nat.add_assoc]

/-- Two validators share a counter, and the one in between has its own. Its messages are due in an
item of the wrong kind and in a field and a value inside the next item. The second document is no
object at all. -/
theorem messages_count_on_across_pets :
    let shared : Catalog := .numbered (Catalog.counting "missing ") 0
    let own : Catalog := .numbered (Catalog.counting "lost ") 1
    let pets : Validator := { (default : Validator) with catalog := own }
    let home : Validator := { (default : Validator) with catalog := shared }
    let owner : Validator :=
      { (default : Validator) with
        schema := .ofList [("pets", .nested pets), ("home", .nested home)]
        catalog := shared }
    let shape : Shape := .object [.leaf "note",
      .nested "pets" (.arrayOf (.object [.leaf "name", .nested "tags" .emptyArray])),
      .nested "home" (.object [.leaf "city"]), .leaf "age"]
    let document : Json := .object [("home", .object []), ("note", .null),
      ("pets", .array [.string "lace", .object [("tags", .nat 1)]])]
    let validations : List Validation := [⟨owner, shape, document⟩, ⟨owner, shape, .nat 3⟩]
    let outcomes : List Outcome := [
      ⟨some (.object [("home", .object []), ("pets", .array [.null, .object []])]),
        some (.object [("age", .string "missing 2"),
          ("home", .object [("city", .string "missing 1")]), ("note", .string "missing 0"),
          ("pets", .array [.string "lost 0",
            .object [("name", .string "lost 1"), ("tags", .string "lost 2")]])])⟩,
      ⟨none, some (.string "missing 3")⟩]
    let store : Store := {}
    (∀ validation ∈ validations,
        ∃ source limit, Shape.parse source limit = .ok validation.shape) ∧
      (answers validations).answer store = outcomes.map .ok ∧
      (charged 0 validations outcomes).map (fun entry => entry.2.path) =
        [[.field "note"], [.field "home", .field "city"], [.field "age"], []] ∧
      ∀ counter, List.Forall₂ (fun entry turn => entry.1.errorAt? entry.2.path.pointer.text =
          some (.string (entry.2.catalog.messageAt turn)))
        (charged counter validations outcomes)
        (List.range' (store.counters counter) (charged counter validations outcomes).length) ∧
      ((answers validations).after store).counters counter =
        store.counters counter + (charged counter validations outcomes).length := by
  intro shared own pets home owner shape document validations outcomes store
  have hparse : Shape.parse "{note,pets[{name,tags[]}],home{city},age}" 4 = .ok shape := by
    decide +kernel
  have parsed : ∀ validation ∈ validations,
      ∃ source limit, Shape.parse source limit = .ok validation.shape := by
    have hshape : ∃ source limit, Shape.parse source limit = .ok shape := ⟨_, _, hparse⟩
    exact List.forall_mem_cons.mpr ⟨hshape, List.forall_mem_cons.mpr ⟨hshape, nofun⟩⟩
  have answered : (answers validations).answer store = outcomes.map .ok := by decide +kernel
  exact ⟨parsed, answered, by decide +kernel, messages_count_on parsed answered⟩

end Validation

end DocShape
