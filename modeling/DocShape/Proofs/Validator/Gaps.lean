import DocShape.Proofs.Validator.Answers

/-!
# `DocShape.Proofs.Validator.Gaps`: where a shape says too little

A gap is an array with items whose shape does not say which. `Shape.gaps` lists the gaps of a
value in the order of a walk, from the shape and the value alone. An evaluation ends with an error
exactly if there is a gap, and the error is about the first one (`Shape.stopsAt`). No rule,
catalog or validator has a say in that, and no failure before a gap hides it.

`Evaluation.StopsAt` carries this through the parts of a walk. A part without gaps is back at the
place where it started, so the next one starts from the right place.
-/

set_option autoImplicit false

namespace DocShape

/-- An array with items whose shape does not say which. -/
structure Gap where
  /-- The path to the array, from the value at work. -/
  path : FieldPath
  /-- The number of its items. -/
  length : Nat
  deriving DecidableEq

namespace Gap

/-- The gap as it is seen from one step outside. -/
def within (step : PathStep) (gap : Gap) : Gap :=
  { gap with path := step :: gap.path }

/-- The error about a gap of the value at a path. -/
def error (start : FieldPath) (gap : Gap) : ValidateError :=
  .shapeNotSpecified (FieldPath.text (start ++ gap.path)) gap.length

end Gap

mutual

/-- The gaps of a value, in the order of a walk. -/
def Shape.gaps (value : Json) : Shape → List Gap
  | .object fields =>
    match value with
    | .object members => Field.allGaps members fields
    | _ => []
  | .emptyArray =>
    match value with
    | .array [] => []
    | .array items => [⟨[], items.length⟩]
    | _ => []
  | .arrayOf element =>
    match value with
    | .array items => items.zipIdx.flatMap fun (item, position) =>
      (element.gaps item).map (Gap.within (.index position))
    | _ => []

/-- The gaps of the value of a field. -/
def Field.gaps (members : Members) : Field → List Gap
  | .leaf _ => []
  | .nested name shape =>
    match Members.present? name members with
    | none => []
    | some value => (shape.gaps value).map (Gap.within (.field name))

/-- The gaps of the values of fields, in their order. -/
def Field.allGaps (members : Members) : List Field → List Gap
  | [] => []
  | field :: rest => field.gaps members ++ Field.allGaps members rest

end

/-- A value of another kind than the shape asks for has no gaps. -/
theorem Shape.gaps_of_kind_ne {shape : Shape} {value : Json} (hkind : value.kind ≠ shape.kind) :
    shape.gaps value = [] := by
  cases shape <;> cases value <;> first
    | exact absurd rfl hkind
    | rfl

/-- A field whose value is missing or null has no gaps. -/
theorem Field.gaps_of_absent {field : Field} {members : Members}
    (absent : Members.present? field.name members = none) : field.gaps members = [] := by
  cases field with
  | leaf name => rfl
  | nested name shape =>
    rw [Field.name_nested] at absent
    simp only [Field.gaps, absent]

namespace Evaluation

variable {α β : Type}

/-- From every walk the part ends with the error about the first gap and stays there. Without gaps
it gives a result and is back at the place where it started. -/
def StopsAt (act : Evaluation α) (gaps : List Gap) : Prop :=
  ∀ walk : Walk,
    match gaps.head? with
    | none => ∃ result after, act.run walk = .ok result after ∧ after.path = walk.path
    | some gap => ∃ after, act.run walk = .error (gap.error walk.path) after ∧
        after.path = walk.path ++ gap.path

namespace StopsAt

/-- A part that gives a result and does not move has no gaps. -/
theorem of_run {act : Evaluation α}
    (h : ∀ walk, ∃ result after, act.run walk = .ok result after ∧ after.path = walk.path) :
    act.StopsAt [] :=
  h

/-- To return a value meets no gap. -/
theorem pure (value : α) : StopsAt (Pure.pure value) [] :=
  of_run fun walk => ⟨value, walk, rfl, rfl⟩

/-- To write an event meets no gap. -/
theorem log (event : FieldPath → Event) : (Evaluation.log event).StopsAt [] :=
  of_run fun walk => ⟨(), _, run_log event walk, rfl⟩

/-- To ask for a message meets no gap. -/
theorem require (catalog : Catalog) : (Evaluation.require catalog).StopsAt [] :=
  of_run fun walk => ⟨_, _, run_require catalog walk, rfl⟩

/-- A value of the wrong kind is not looked into, so no gap is met. -/
theorem refuse (catalog : Catalog) (event : FieldPath → Event) :
    (Evaluation.refuse catalog event).StopsAt [] :=
  of_run fun walk => ⟨_, _, run_refuse catalog event walk, rfl⟩

/-- A leaf has no gaps, whatever its rule does. -/
theorem leaf (scope : Validator) (name : String) (value : Json) (draft : Draft) :
    (Evaluation.leaf scope name value draft).StopsAt [] :=
  of_run fun walk => ⟨_, _, run_leaf scope name value draft walk, rfl⟩

/-- To hand a field over meets no gap. -/
theorem delegate (scope : Validator) (name : String) :
    (Evaluation.delegate scope name).StopsAt [] :=
  of_run fun walk => ⟨_, _, run_delegate scope name walk, rfl⟩

/-- The gaps of two parts in a row are those of the first and then those of the second, whatever
the first gives. -/
theorem bind {first : Evaluation α} {next : α → Evaluation β} {gaps others : List Gap}
    (hfirst : first.StopsAt gaps) (hnext : ∀ middle, (next middle).StopsAt others) :
    (first >>= next).StopsAt (gaps ++ others) := by
  intro walk
  rw [EStateM.run_bind]
  have hrun := hfirst walk
  cases gaps with
  | cons gap rest =>
    -- The first part ends with an error, and the second is not done at all.
    obtain ⟨after, hrun, hpath⟩ := hrun
    rw [hrun]
    exact ⟨after, rfl, hpath⟩
  | nil =>
    obtain ⟨middle, between, hrun, hpath⟩ := hrun
    rw [hrun, List.nil_append, ← hpath]
    exact hnext middle between

/-- A part without gaps does not count. -/
theorem bind_nil {first : Evaluation α} {next : α → Evaluation β} {gaps : List Gap}
    (hfirst : first.StopsAt []) (hnext : ∀ middle, (next middle).StopsAt gaps) :
    (first >>= next).StopsAt gaps :=
  hfirst.bind hnext

/-- What follows without gaps does not count either. -/
theorem bind_pure {first : Evaluation α} {next : α → Evaluation β} {gaps : List Gap}
    (hfirst : first.StopsAt gaps) (hnext : ∀ middle, (next middle).StopsAt []) :
    (first >>= next).StopsAt gaps := by
  have hbind := hfirst.bind hnext
  rw [List.append_nil] at hbind
  exact hbind

/-- One step further inside, the gaps are seen from one step outside. -/
theorem inside {act : Evaluation α} {gaps : List Gap} (h : act.StopsAt gaps) (step : PathStep) :
    (Evaluation.inside step act).StopsAt (gaps.map (Gap.within step)) := by
  intro walk
  rw [run_inside]
  have hrun := h (walk.enter step)
  -- Without a gap the walk comes back from the step. With one it stays inside, and so does the
  -- error.
  cases gaps with
  | nil =>
    obtain ⟨result, after, hrun, hpath⟩ := hrun
    rw [hrun]
    refine ⟨result, after.leave, rfl, ?_⟩
    show after.path.dropLast = walk.path
    rw [hpath]
    exact List.dropLast_concat
  | cons gap rest =>
    obtain ⟨after, hrun, hpath⟩ := hrun
    have hsame : (walk.enter step).path ++ gap.path = walk.path ++ (gap.within step).path :=
      List.append_cons .. |>.symm
    rw [hrun]
    refine ⟨after, ?_, hpath.trans hsame⟩
    unfold Gap.error
    rw [hsame]
    rfl

/-- The gaps of items are those of each item in turn, seen from outside. -/
theorem eachItem {act : Json → Evaluation Outcome} {gaps : Json → List Gap}
    (h : ∀ item, (act item).StopsAt (gaps item)) (items : List Json) (position : Nat) :
    (Evaluation.eachItem act position items).StopsAt
      ((items.zipIdx position).flatMap fun (item, position) =>
        (gaps item).map (Gap.within (.index position))) := by
  induction items generalizing position with
  | nil => exact pure []
  | cons item rest ih =>
    rw [List.zipIdx_cons, List.flatMap_cons]
    refine ((h item).inside (.index position)).bind fun outcome => ?_
    exact (ih (position + 1)).bind_pure fun outcomes => pure (outcome :: outcomes)

end StopsAt

end Evaluation

open Evaluation

mutual

/-- The evaluation of a value along a shape stops at the first gap, if there is one. -/
theorem Shape.stopsAt (shape : Shape) (scope : Validator) (value : Json) :
    (shape.evaluate scope value).StopsAt (shape.gaps value) := by
  by_cases hkind : value.kind = shape.kind
  · match shape with
    | .object fields =>
      obtain ⟨members, rfl⟩ := Json.exists_of_kind_object hkind
      refine (Field.stopsAt_all fields scope members {}).bind_pure fun draft => ?_
      exact (StopsAt.log _).bind_nil fun _ => .pure draft.outcome
    | .emptyArray =>
      obtain ⟨items, rfl⟩ := Json.exists_of_kind_array hkind
      cases items with
      | nil => exact .pure (Outcome.passed (.array []))
      | cons item rest =>
        -- This is the gap itself, at the place where the walk is.
        intro walk
        have herror : Gap.error walk.path ⟨[], (item :: rest).length⟩ =
            .shapeNotSpecified (FieldPath.text walk.path) (item :: rest).length := by
          unfold Gap.error
          rw [List.append_nil]
        refine ⟨walk.write [.event (.shapeNotSpecified walk.path (item :: rest).length)], ?_, ?_⟩
        · rw [herror]
          rfl
        · exact (List.append_nil walk.path).symm
    | .arrayOf element =>
      obtain ⟨items, rfl⟩ := Json.exists_of_kind_array hkind
      cases items with
      | nil => exact .pure (Outcome.passed (.array []))
      | cons item rest =>
        have hitems := StopsAt.eachItem (fun item => element.stopsAt scope item) (item :: rest) 0
        refine hitems.bind_pure fun outcomes => ?_
        exact (StopsAt.log _).bind_nil fun _ => .pure (Outcome.ofItems outcomes)
  · rw [Shape.evaluate_of_kind_ne hkind, Shape.gaps_of_kind_ne hkind]
    exact .refuse scope.catalog shape.refusal

/-- So does the evaluation of a field. -/
theorem Field.stopsAt (field : Field) (scope : Validator) (members : Members) (draft : Draft) :
    (field.evaluate scope members draft).StopsAt (field.gaps members) := by
  match field with
  | .leaf name =>
    have hgaps : (Field.leaf name).gaps members = [].map (Gap.within (.field name)) := rfl
    rw [Field.evaluate_leaf, hgaps]
    refine StopsAt.inside ?_ (.field name)
    split
    · exact (StopsAt.require scope.catalog).bind_nil fun message => .pure _
    · exact .leaf scope name _ draft
  | .nested name shape =>
    rw [Field.evaluate_nested]
    unfold Field.gaps
    cases Members.present? name members with
    | none =>
      have hrequire := (StopsAt.require scope.catalog).bind_nil fun message =>
        .pure (draft.fail name message)
      exact hrequire.inside (.field name)
    | some value =>
      refine StopsAt.inside ?_ (.field name)
      -- Whoever is in charge of the value, its gaps are the same.
      refine (StopsAt.delegate scope name).bind_nil fun inner => ?_
      exact (shape.stopsAt inner value).bind_pure fun outcome => .pure _

/-- The gaps of fields are met in the order of the fields. -/
theorem Field.stopsAt_all (fields : List Field) (scope : Validator) (members : Members)
    (draft : Draft) :
    (Field.evaluateAll scope members draft fields).StopsAt (Field.allGaps members fields) := by
  match fields with
  | [] => exact .pure draft
  | field :: rest =>
    refine (field.stopsAt scope members draft).bind fun middle => ?_
    exact Field.stopsAt_all rest scope members middle

end

namespace Validator

/-- A validation answers an error exactly if there is a gap, and the error is about the first. -/
theorem answer_eq_error_iff (validator : Validator) (shape : Shape) (document : Json)
    (store : Store) (error : ValidateError) :
    (validator.validateShape shape document).answer store = .error error ↔
      ∃ gap, (shape.gaps document).head? = some gap ∧
        error = .shapeNotSpecified (FieldPath.text gap.path) gap.length := by
  have hstops := shape.stopsAt validator document store.walk
  rw [answer_validateShape]
  cases hgaps : (shape.gaps document).head? with
  | none =>
    simp only [hgaps] at hstops
    obtain ⟨outcome, after, hrun, -⟩ := hstops
    simp [hrun]
  | some gap =>
    simp only [hgaps] at hstops
    obtain ⟨after, hrun, -⟩ := hstops
    -- The walk starts at the root, so the path of the gap is the whole path.
    have hroot : gap.error store.walk.path =
        .shapeNotSpecified (FieldPath.text gap.path) gap.length := rfl
    rw [hrun, hroot]
    simp [eq_comm]

/-- Without gaps there is an outcome. -/
theorem exists_answer_of_gaps_eq_nil (validator : Validator) {shape : Shape} {document : Json}
    (hgaps : shape.gaps document = []) (store : Store) :
    ∃ outcome, (validator.validateShape shape document).answer store = .ok outcome := by
  cases hanswer : (validator.validateShape shape document).answer store with
  | ok outcome => exact ⟨outcome, rfl⟩
  | error error =>
    obtain ⟨gap, hgap, -⟩ := (answer_eq_error_iff ..).mp hanswer
    rw [hgaps] at hgap
    cases hgap

/-- A validation ends with an error exactly if the document has a gap, and the error gives the
path and the length of the first one. So all validators agree on it, whatever failed before. -/
theorem answer_error_iff_gap (validator : Validator) (shape : Shape) (document : Json)
    (store : Store) :
    (∀ error, (validator.validateShape shape document).answer store = .error error ↔
      ∃ gap, (shape.gaps document).head? = some gap ∧
        error = .shapeNotSpecified (FieldPath.text gap.path) gap.length) ∧
    ∀ (other : Validator) (later : Store) (error : ValidateError),
      (validator.validateShape shape document).answer store = .error error ↔
        (other.validateShape shape document).answer later = .error error := by
  refine ⟨answer_eq_error_iff validator shape document store, fun other later error => ?_⟩
  rw [answer_eq_error_iff, answer_eq_error_iff]

/-- Two gaps behind a name that is missing. The one inside a pet comes first. -/
example :
    let shape : Shape := .object [.leaf "name",
      .nested "pets" (.arrayOf (.object [.nested "tags" .emptyArray])),
      .nested "tags" .emptyArray]
    let document : Json := .object [("pets", .array [.object [("tags", .array [])],
      .object [("tags", .array [.nat 1])]]), ("tags", .array [.nat 1, .nat 2])]
    shape.gaps document =
      [⟨[.field "pets", .index 1, .field "tags"], 1⟩, ⟨[.field "tags"], 2⟩] := by
  decide

end Validator

end DocShape
