import DocShape.Proofs.Session.Histories
import DocShape.Proofs.Validator.Journals
import DocShape.Proofs.Validator.Remarks

/-!
# `DocShape.Proofs.Validator.Traces`: the log of a walk

An evaluation leaves one event in the log for each remark on the value, in the same order
(`Evaluation.Follows`, `Shape.follows`). If it ends with an error, it leaves the events of the
first remarks, and the last of them is on the items that the error is about.
`Validator.exists_events` takes this from walks to validations.
-/

set_option autoImplicit false

namespace DocShape

/-! ### Remarks and events -/

namespace Position

variable {position : Position} {path : FieldPath} {failed passed : Nat} {anyFailed : Bool}
  {event : Event}

/-- A closing event is about the place that is closed, and opens none. -/
theorem path?_closing? (h : position.closing? path failed passed anyFailed = some event) :
    event.path? = some path ∧ event.isOpening = false := by
  unfold closing? at h
  split at h <;> cases h <;> exact ⟨rfl, rfl⟩

/-- A position is silent exactly if no event closes it. -/
theorem closing?_isNone (position : Position) (path : FieldPath) (failed passed : Nat)
    (anyFailed : Bool) :
    (position.closing? path failed passed anyFailed).isNone = position.isSilent := by
  obtain ⟨scope, shape, value⟩ := position
  unfold closing? isSilent
  cases shape <;> cases value with
  | array items => cases items <;> rfl
  | _ => rfl

end Position

/-- Whether an event tells at a place what a topic is about. A closing event has the numbers of an
outcome of the position. Only the event about items that a shape says nothing about needs none. -/
def Topic.Tells (path : FieldPath) (event : Event) : Topic → Prop
  | .opening mark => event = mark.event path
  | .closing position => ∃ part : Outcome,
    (position.shape = .emptyArray ∨ position.Gives part) ∧
      position.closing? path (Outcome.keys part.errors) (Outcome.keys part.valid)
        part.errors.isSome = some event

namespace Remark

/-- Whether an event tells what is remarked, seen from the start of a path. -/
def Tells (start : FieldPath) (remark : Remark) (event : Event) : Prop :=
  remark.topic.Tells (start ++ remark.path) event

variable {start : FieldPath} {remark : Remark} {event : Event}

/-- The event of a remark names its place, and opens it if the remark does. -/
theorem Tells.path?_eq (tells : remark.Tells start event) :
    event.path? = some (start ++ remark.path) ∧ event.isOpening = remark.topic.isOpening := by
  obtain ⟨path, topic⟩ := remark
  cases topic with
  | opening opening =>
    have hevent : event = opening.event (start ++ path) := tells
    rw [hevent]
    cases opening <;> exact ⟨rfl, rfl⟩
  | closing position =>
    obtain ⟨part, -, hevent⟩ := tells
    exact Position.path?_closing? hevent

/-- An event that is seen from the start of the walk shows the path of its remark. -/
theorem Tells.path_eq (tells : remark.Tells [] event) {path : FieldPath}
    (hplace : event.path? = some path) : remark.path = path :=
  (Option.some.inj (hplace.symm.trans tells.path?_eq.1)).symm

/-- From one step outside, the same is told. -/
theorem tells_below_iff {step : PathStep} :
    (remark.below [step]).Tells start event ↔ remark.Tells (start ++ [step]) event := by
  unfold Tells below
  rw [List.append_assoc]

/-- The event of a remark is within a path as the remark is. -/
theorem Tells.isWithin_eq (tells : remark.Tells [] event) (path : FieldPath) :
    event.isWithin path = remark.isWithin path := by
  unfold Event.isWithin
  rw [tells.path?_eq.1]
  rfl

/-- The events within a path are told by the remarks within it. -/
theorem forall₂_filter {remarks : List Remark} {events : List Event}
    (h : List.Forall₂ (Tells []) remarks events) (path : FieldPath) :
    List.Forall₂ (Tells []) (remarks.filter (isWithin path))
      (events.filter (Event.isWithin path)) := by
  induction h with
  | nil => exact .nil
  | cons tells _ ih =>
    rw [List.filter_cons, List.filter_cons, tells.isWithin_eq path]
    -- A remark and its event are both within the path, or neither of them is.
    split
    · exact .cons tells ih
    · exact ih

/-- Opening remarks are told by their own events. -/
theorem forall₂_opens (start path : FieldPath) (openings : List Opening) :
    List.Forall₂ (Tells start) (openings.map (opens path))
      (openings.map (Opening.event (start ++ path))) :=
  List.forall₂_map_left_iff.mpr (List.forall₂_map_right_iff.mpr
    (List.forall₂_same.mpr fun _ _ => rfl))

end Remark

/-! ### Parts of a walk -/

namespace Evaluation

variable {α β : Type}

/-- The last of some remarks is on items that the shape says nothing about, and an error names
their place, seen from the start of a path. -/
def StopsOn (told : List Remark) (start : FieldPath) (error : ValidateError) : Prop :=
  ∃ path scope items,
    (∃ front, told = front ++ [⟨path, .closing ⟨scope, .emptyArray, .array items⟩⟩]) ∧
      error = .shapeNotSpecified (FieldPath.text (start ++ path)) items.length

/-- What a part leaves in the journal: the events of some remarks if it gives a result, at the
place where it started. If it ends with an error, it leaves those of the first of them, up to the
remark on the place that the error names. -/
inductive Ends (remarks : List Remark) (walk : Walk) :
    EStateM.Result ValidateError Walk α → Prop where
  | ok {result : α} {after : Walk} {notes : List Note} (path : after.path = walk.path)
    (journal : after.journal = walk.journal ++ notes)
    (tells : List.Forall₂ (Remark.Tells walk.path) remarks (notes.filterMap Note.event?)) :
    Ends remarks walk (.ok result after)
  | error {error : ValidateError} {after : Walk} {notes : List Note} {told : List Remark}
    (stops : StopsOn told walk.path error) (first : told <+: remarks)
    (journal : after.journal = walk.journal ++ notes)
    (tells : List.Forall₂ (Remark.Tells walk.path) told (notes.filterMap Note.event?)) :
    Ends remarks walk (.error error after)

namespace StopsOn

variable {told : List Remark} {start : FieldPath} {error : ValidateError}

/-- A walk that stops on the last of some remarks does so on the last of more of them. -/
theorem append (stops : StopsOn told start error) (remarks : List Remark) :
    StopsOn (remarks ++ told) start error := by
  obtain ⟨path, scope, items, ⟨front, rfl⟩, herror⟩ := stops
  exact ⟨path, scope, items, ⟨remarks ++ front, (List.append_assoc ..).symm⟩, herror⟩

/-- From one step outside, the same place is named. -/
theorem below {step : PathStep} (stops : StopsOn told (start ++ [step]) error) :
    StopsOn (told.map (Remark.below [step])) start error := by
  obtain ⟨path, scope, items, ⟨front, rfl⟩, herror⟩ := stops
  rw [List.append_assoc] at herror
  exact ⟨step :: path, scope, items, ⟨front.map (Remark.below [step]), List.map_append⟩, herror⟩

end StopsOn

/-- From every walk the part leaves the events of the remarks. -/
def Follows (act : Evaluation α) (remarks : List Remark) : Prop :=
  ∀ walk, Ends remarks walk (act.run walk)

namespace Follows

/-- Parts that only write notes follow the remarks that their events tell. -/
theorem of_run {act : Evaluation α} {value : α} {remarks : List Remark}
    (notes : FieldPath → List Note)
    (hrun : ∀ walk, act.run walk = .ok value (walk.write (notes walk.path)))
    (tells : ∀ path,
      List.Forall₂ (Remark.Tells path) remarks ((notes path).filterMap Note.event?)) :
    act.Follows remarks := by
  intro walk
  rw [hrun walk]
  exact .ok rfl rfl (tells walk.path)

/-- To return a value leaves no event. -/
theorem pure (value : α) : Follows (Pure.pure value) [] := by
  intro walk
  exact .ok rfl (List.append_nil walk.journal).symm .nil

/-- To ask for a message is no event. -/
theorem require (catalog : Catalog) : (Evaluation.require catalog).Follows [] := by
  intro walk
  rw [run_require]
  exact .ok rfl rfl .nil

/-- An event closes a position if it does so with the numbers of one of its outcomes. -/
theorem log {position : Position} {event : FieldPath → Event} (part : Outcome)
    (known : position.shape = .emptyArray ∨ position.Gives part)
    (closes : ∀ path, position.closing? path (Outcome.keys part.errors) (Outcome.keys part.valid)
      part.errors.isSome = some (event path)) :
    (Evaluation.log event).Follows [⟨[], .closing position⟩] := by
  refine of_run (fun path => [.event (event path)]) (run_log event) fun path => .cons ?_ .nil
  refine ⟨part, known, ?_⟩
  rw [List.append_nil]
  exact closes path

/-- The remarks of two parts in a row are those of the first and then those of the second. -/
theorem bind {first : Evaluation α} {next : α → Evaluation β} {remarks others : List Remark}
    (hfirst : first.Follows remarks)
    (hnext : ∀ middle, Gives first middle → (next middle).Follows others) :
    (first >>= next).Follows (remarks ++ others) := by
  intro walk
  have hends := hfirst walk
  rw [EStateM.run_bind]
  cases hrun : first.run walk with
  | error error after =>
    -- The second part is not done at all.
    rw [hrun] at hends
    cases hends with
    | error stops first journal tells =>
      exact .error stops (first.trans (List.prefix_append remarks others)) journal tells
  | ok middle between =>
    rw [hrun] at hends
    cases hends with
    | ok path journal tells =>
      -- The second part starts at the same place, behind the notes of the first.
      have hnextEnds := hnext middle ⟨walk, between, hrun⟩ between
      show Ends _ walk ((next middle).run between)
      generalize (next middle).run between = ended at hnextEnds ⊢
      cases hnextEnds with
      | @ok result after notes laterPath laterJournal laterTells =>
        rw [path] at laterPath laterTells
        rw [journal, List.append_assoc] at laterJournal
        refine .ok laterPath laterJournal ?_
        rw [List.filterMap_append]
        exact List.rel_append tells laterTells
      | error stops first laterJournal laterTells =>
        rw [path] at stops laterTells
        rw [journal, List.append_assoc] at laterJournal
        have hfirst := (List.prefix_append_right_inj remarks).mpr first
        refine .error (stops.append remarks) hfirst laterJournal ?_
        rw [List.filterMap_append]
        exact List.rel_append tells laterTells

/-- What follows without remarks does not count. -/
theorem bind_pure {first : Evaluation α} {remarks : List Remark} (hfirst : first.Follows remarks)
    (make : α → β) : (first >>= fun middle => Pure.pure (make middle)).Follows remarks := by
  have hbind := hfirst.bind fun middle _ => pure (make middle)
  rw [List.append_nil] at hbind
  exact hbind

/-- One step further inside, the remarks are seen from one step outside. -/
theorem inside {act : Evaluation α} {remarks : List Remark} (h : act.Follows remarks)
    (step : PathStep) :
    (Evaluation.inside step act).Follows (remarks.map (Remark.below [step])) := by
  intro walk
  have hends := h (walk.enter step)
  have hbelow {told : List Remark} {events : List Event}
      (tells : List.Forall₂ (Remark.Tells (walk.enter step).path) told events) :
      List.Forall₂ (Remark.Tells walk.path) (told.map (Remark.below [step])) events :=
    List.forall₂_map_left_iff.mpr (tells.imp fun _ _ => Remark.tells_below_iff.mpr)
  rw [run_inside]
  generalize act.run (walk.enter step) = ended at hends ⊢
  cases hends with
  | @ok result after notes path journal tells =>
    have hleave : after.leave.path = walk.path := by
      show after.path.dropLast = walk.path
      rw [path]
      exact List.dropLast_concat
    exact .ok hleave journal (hbelow tells)
  -- The error names its place from the root, so it names the same one from outside.
  | error stops first journal tells =>
    exact .error stops.below (first.map _) journal (hbelow tells)

/-- A value of the wrong kind leaves the event that closes its place. -/
theorem refuse {position : Position} {catalog : Catalog} {event : FieldPath → Event}
    (closes : ∀ path failed passed anyFailed,
      position.closing? path failed passed anyFailed = some (event path))
    (h : position.shape.evaluate position.scope position.value =
      Evaluation.refuse catalog event) :
    (Evaluation.refuse catalog event).Follows [⟨[], .closing position⟩] := by
  -- A refusal always gives an outcome.
  have hgives : position.Gives (.failure (catalog.message fun _ => 0)) := by
    unfold Position.Gives
    rw [h]
    exact ⟨Walk.start fun _ => 0, _, run_refuse catalog event _⟩
  refine (log _ (.inr hgives) fun path => closes path _ _ _).bind fun _ _ => ?_
  exact (require catalog).bind_pure Outcome.failure

/-- Items that the shape says nothing about leave their event, and then the error ends the walk at
their place. -/
theorem giveUp (scope : Validator) {items : List Json} (hitems : items ≠ []) :
    (Evaluation.giveUp items.length).Follows
      [⟨[], .closing ⟨scope, .emptyArray, .array items⟩⟩] := by
  obtain ⟨item, rest, rfl⟩ := List.exists_cons_of_ne_nil hitems
  intro walk
  have htells : Remark.Tells walk.path ⟨[], .closing ⟨scope, .emptyArray, .array (item :: rest)⟩⟩
      (.shapeNotSpecified walk.path (item :: rest).length) := by
    refine ⟨default, .inl rfl, ?_⟩
    rw [List.append_nil]
    rfl
  refine .error ⟨[], scope, item :: rest, ⟨[], rfl⟩, ?_⟩ List.prefix_rfl rfl (.cons htells .nil)
  rw [List.append_nil]

/-- The remarks on items are those on each item in turn, seen from outside. -/
theorem eachItem {act : Json → Evaluation Outcome} {remarks : Json → List Remark}
    (h : ∀ item, (act item).Follows (remarks item)) (items : List Json) (position : Nat) :
    (Evaluation.eachItem act position items).Follows
      ((items.zipIdx position).flatMap fun (item, position) =>
        (remarks item).map (Remark.below [.index position])) := by
  induction items generalizing position with
  | nil => exact pure []
  | cons item rest ih =>
    rw [List.zipIdx_cons, List.flatMap_cons]
    refine ((h item).inside (.index position)).bind fun outcome _ => ?_
    exact (ih (position + 1)).bind_pure (List.cons outcome)

end Follows

end Evaluation

open Evaluation

/-! ### Whole evaluations -/

/-- The keys of the errors of an object are those that failed. -/
theorem Draft.keys_errors_outcome (draft : Draft) :
    Outcome.keys draft.outcome.errors = draft.errors.length := by
  unfold Draft.outcome Outcome.ofMembers
  cases draft.errors <;> rfl

/-- What comes of the fields makes the outcome of the object. -/
theorem Position.gives_object {scope : Validator} {fields : List Field} {members : Members}
    {draft : Draft} (h : Evaluation.Gives (Field.evaluateAll scope members {} fields) draft) :
    Position.Gives ⟨scope, .object fields, .object members⟩ draft.outcome := by
  obtain ⟨before, after, hrun⟩ := h
  -- Only the event is written behind the fields.
  refine ⟨before, after.write [.event (.evaluatedObject after.path draft.errors.length
    draft.valid.length)], ?_⟩
  simp only [Shape.evaluate, EStateM.run_bind]
  rw [hrun]
  rfl

/-- What comes of items makes the outcome of the array. -/
theorem Position.gives_array {scope : Validator} {element : Shape} {item : Json}
    {rest : List Json} {outcomes : List Outcome}
    (h : Evaluation.Gives (eachItem (fun item => element.evaluate scope item) 0 (item :: rest))
      outcomes) :
    Position.Gives ⟨scope, .arrayOf element, .array (item :: rest)⟩ (.ofItems outcomes) := by
  obtain ⟨before, after, hrun⟩ := h
  refine ⟨before, after.write [.event (.evaluatedArray after.path (item :: rest).length
    (Outcome.ofItems outcomes).errors.isSome)], ?_⟩
  simp only [Shape.evaluate, EStateM.run_bind]
  rw [hrun]
  rfl

/-- A leaf field is opened if the schema names a validator for it. -/
theorem Evaluation.Follows.leaf (scope : Validator) (name : String) (value : Json)
    (draft : Draft) :
    (Evaluation.leaf scope name value draft).Follows
      (((Field.leaf name).openings scope).map (Remark.opens [])) := by
  refine .of_run (leafNotes scope name value) (run_leaf scope name value draft) fun path => ?_
  have hevents : (leafNotes scope name value path).filterMap Note.event? =
      ((Field.leaf name).openings scope).map (Opening.event (path ++ [])) := by
    simp only [leafNotes, Field.openings, List.append_nil]
    -- That a test was called is noted, but is no event.
    cases (scope.resolve name).isNested <;> cases (scope.ruleFor name).hasTest <;> rfl
  rw [hevents]
  exact Remark.forall₂_opens path [] _

/-- A structured field is opened if the schema names a rule or a validator for it. -/
theorem Evaluation.Follows.delegate (scope : Validator) (name : String) (shape : Shape) :
    (Evaluation.delegate scope name).Follows
      (((Field.nested name shape).openings scope).map (Remark.opens [])) := by
  refine .of_run (delegateNotes scope name) (run_delegate scope name) fun path => ?_
  have hevents : (delegateNotes scope name path).filterMap Note.event? =
      ((Field.nested name shape).openings scope).map (Opening.event (path ++ [])) := by
    simp only [delegateNotes, Field.openings, List.append_nil]
    cases scope.resolve name <;> rfl
  rw [hevents]
  exact Remark.forall₂_opens path [] _

mutual

/-- The evaluation of a value along a shape leaves the events of the remarks on it. -/
theorem Shape.follows (shape : Shape) (scope : Validator) (value : Json) :
    (shape.evaluate scope value).Follows (shape.remarks scope value) := by
  by_cases hkind : value.kind = shape.kind
  · match shape with
    | .object fields =>
      obtain ⟨members, rfl⟩ := Json.exists_of_kind_object hkind
      -- The event that closes the object has the numbers of the draft that its fields leave.
      refine (Field.follows_all fields scope members {}).bind fun draft hdraft => ?_
      refine Follows.bind_pure ?_ fun _ => draft.outcome
      refine .log draft.outcome (.inr (Position.gives_object hdraft)) fun path => ?_
      rw [Draft.keys_errors_outcome]
      rfl
    | .emptyArray =>
      obtain ⟨items, rfl⟩ := Json.exists_of_kind_array hkind
      cases items with
      | nil => exact .pure (Outcome.passed (.array []))
      | cons item rest => exact Follows.giveUp scope (List.cons_ne_nil item rest)
    | .arrayOf element =>
      obtain ⟨items, rfl⟩ := Json.exists_of_kind_array hkind
      cases items with
      -- An empty array is left in silence, whatever its items would have to be.
      | nil => exact .pure (Outcome.passed (.array []))
      | cons item rest =>
        have hitems := Follows.eachItem (fun item => element.follows scope item) (item :: rest) 0
        refine hitems.bind fun outcomes houtcomes => ?_
        refine Follows.bind_pure ?_ fun _ => Outcome.ofItems outcomes
        exact .log (.ofItems outcomes) (.inr (Position.gives_array houtcomes)) fun path => rfl
  · have hevaluate := Shape.evaluate_of_kind_ne hkind scope
    rw [Shape.remarks_of_kind_ne hkind, hevaluate]
    refine Follows.refuse (fun path failed passed anyFailed => ?_) hevaluate
    cases shape <;> cases value <;> first
      | exact absurd rfl hkind
      | rfl

/-- So does the evaluation of a field. -/
theorem Field.follows (field : Field) (scope : Validator) (members : Members) (draft : Draft) :
    (field.evaluate scope members draft).Follows (field.remarks scope members) := by
  -- Nothing is said about a field without value.
  have habsent (name : String) : Follows (inside (.field name) do
      return draft.fail name (← require scope.catalog)) [] :=
    ((Follows.require scope.catalog).bind_pure (draft.fail name)).inside (.field name)
  match field with
  | .leaf name =>
    rw [Field.evaluate_leaf]
    unfold Field.remarks
    cases Members.present? name members with
    | none => exact habsent name
    | some value =>
      have hleaf := (Follows.leaf scope name value draft).inside (.field name)
      rw [List.map_map] at hleaf
      exact hleaf
  | .nested name shape =>
    rw [Field.evaluate_nested]
    unfold Field.remarks
    cases Members.present? name members with
    | none => exact habsent name
    | some value =>
      have hvalue (inner : Validator) (hinner : Gives (delegate scope name) inner) :
          Follows (do return draft.splice name (← shape.evaluate inner value))
            (shape.remarks (scope.scopeFor name) value) := by
        rw [gives_delegate hinner]
        exact (shape.follows (scope.scopeFor name) value).bind_pure (draft.splice name)
      have hinside := ((Follows.delegate scope name shape).bind hvalue).inside (.field name)
      rw [List.map_append, List.map_map] at hinside
      exact hinside

/-- Fields in order leave the events of the remarks on each of them in turn. -/
theorem Field.follows_all (fields : List Field) (scope : Validator) (members : Members)
    (draft : Draft) :
    (Field.evaluateAll scope members draft fields).Follows
      (Field.allRemarks scope members fields) := by
  match fields with
  | [] => exact .pure draft
  | field :: rest =>
    refine (field.follows scope members draft).bind fun middle _ => ?_
    exact Field.follows_all rest scope members middle

end

/-! ### Logs of validations -/

/-- The log of a validation is that of the remarks on the document and a last event, if there is
an outcome. Otherwise it is that of the first remarks, up to the one on the place that the error
names. -/
theorem Validator.exists_events (validator : Validator) (shape : Shape) (document : Json)
    (store : Store) :
    ∃ told events, told <+: shape.remarks validator document ∧
      List.Forall₂ (Remark.Tells []) told events ∧
      match (validator.validateShape shape document).answer store with
      | .ok outcome => told = shape.remarks validator document ∧
        (Session.withEvents (validator.validateShape shape document)).answer store =
          (.ok outcome, events ++ [.finished outcome.isValid])
      | .error error =>
        StopsOn told [] error ∧
        (Session.withEvents (validator.validateShape shape document)).answer store =
          (.error error, events) := by
  have hrun := validator.run_validateShape shape document store
  have hends := shape.follows validator document (Walk.start store.counters)
  generalize (shape.evaluate validator document).run (Walk.start store.counters) = ended
    at hrun hends
  -- Behind an outcome comes the last event, behind an error comes nothing.
  cases hends with
  | @ok outcome after notes path journal tells =>
    have hjournal : ((validator.validateShape shape document).after store).journal =
        store.journal ++ (notes ++ [.event (.finished outcome.isValid)]) := by
      show ((validator.validateShape shape document).run store).2.journal = _
      rw [hrun, ← List.append_assoc]
      show store.journal ++ after.journal ++ _ = _
      rw [journal]
      rfl
    have hanswer : (validator.validateShape shape document).answer store = .ok outcome :=
      congrArg Prod.fst hrun
    refine ⟨_, _, List.prefix_rfl, tells, ?_⟩
    rw [hanswer]
    refine ⟨rfl, ?_⟩
    rw [Session.answer_withEvents hjournal, hanswer, List.filterMap_append]
    rfl
  | @error error after notes told stops first journal tells =>
    have hjournal : ((validator.validateShape shape document).after store).journal =
        store.journal ++ notes := by
      show ((validator.validateShape shape document).run store).2.journal = _
      rw [hrun]
      show store.journal ++ after.journal = _
      rw [journal]
      rfl
    have hanswer : (validator.validateShape shape document).answer store = .error error :=
      congrArg Prod.fst hrun
    refine ⟨told, _, first, tells, ?_⟩
    rw [hanswer]
    refine ⟨stops, ?_⟩
    rw [Session.answer_withEvents hjournal, hanswer]

end DocShape
