import DocShape.Proofs.Validator.Dues
import DocShape.Proofs.Validator.Positions

/-!
# `DocShape.Proofs.Validator.Issues`: messages in their places

What is due in a value (`Shape.dues`) is what an evaluation asks catalogs for, in this order, and
the tree of errors holds each message at the place where it was due (`Shape.issues`).

`Evaluation.Issues` carries this through the parts of a walk. A part hands its messages on if what
follows leaves the places of its dues alone. The fields of an object do so because their names are
distinct, and the items of an array because each has its own slot.
-/

set_option autoImplicit false

namespace DocShape

/-- The error at the end of a path. -/
def Outcome.errorIn (outcome : Outcome) (path : FieldPath) : Option Json :=
  (outcome.errors.bind fun tree => tree.at? path.pointer).bind Json.nonNull?

/-- The error at the pointer of a path is the error at its end. -/
theorem Outcome.errorAt?_pointer (outcome : Outcome) (path : FieldPath) :
    outcome.errorAt? path.pointer.text = outcome.errorIn path := by
  unfold errorAt?
  simp only [Json.atPointer?_text]
  rfl

/-- The error of an object under the name of a field goes on inside the tree of the field. -/
theorem Draft.errorIn_field (draft : Draft) (name : String) (rest : FieldPath) :
    draft.outcome.errorIn (.field name :: rest) =
      ((Members.get? name draft.errors).bind fun tree => tree.at? rest.pointer).bind
        Json.nonNull? := by
  show (draft.outcome.errors.bind fun tree => (tree.child? name).bind fun inner =>
    inner.at? (FieldPath.pointer rest)).bind Json.nonNull? = _
  rw [← Option.bind_assoc, Draft.errors_child?_outcome]

/-- The error of an array at an item goes on inside what came of the item. -/
theorem Outcome.errorIn_index {outcomes : List Outcome} {index : Nat} {part : Outcome}
    (h : outcomes[index]? = some part) (rest : FieldPath) :
    (ofItems outcomes).errorIn (.index index :: rest) = part.errorIn rest := by
  show ((ofItems outcomes).errors.bind fun tree => (tree.child? (toString index)).bind
    fun inner => inner.at? (FieldPath.pointer rest)).bind Json.nonNull? = _
  rw [← Option.bind_assoc, Json.nonNull_at?_of_nonNull, errors_child?_ofItems h,
    ← Json.nonNull_at?_of_nonNull]
  rfl

/-- A value of another kind than the shape asks for is due itself. -/
theorem Shape.dues_of_kind_ne {shape : Shape} {value : Json} (hkind : value.kind ≠ shape.kind)
    (scope : Validator) : shape.dues scope value = [⟨[], scope.catalog⟩] := by
  cases shape <;> cases value <;> first
    | exact absurd rfl hkind
    | rfl

/-- All that is due for a field is due inside it. -/
theorem Field.exists_path_of_mem_dues {field : Field} {scope : Validator} {members : Members}
    {due : Due} (h : due ∈ field.dues scope members) :
    ∃ rest, due.path = .field field.name :: rest := by
  cases field with
  | leaf name =>
    simp only [Field.dues] at h
    split at h
    · rw [List.mem_singleton.mp h]
      exact ⟨[], rfl⟩
    · cases h
  | nested name shape =>
    simp only [Field.dues] at h
    split at h
    · rw [List.mem_singleton.mp h]
      exact ⟨[], rfl⟩
    · obtain ⟨inner, -, rfl⟩ := List.mem_map.mp h
      exact ⟨inner.path, rfl⟩

namespace Evaluation

variable {α β : Type}

/-- What a part gives holds the messages that were due in it, each at its place, where `read`
looks for it. The counters move on by these messages. -/
def Issues (act : Evaluation α) (dues : List Due) (read : α → FieldPath → Option Json) : Prop :=
  ∀ walk result after, act.run walk = .ok result after →
    after.counters = Due.settle walk.counters dues ∧
      List.Forall₂ (fun due message => read result due.path = some (.string message)) dues
        (Due.messages walk.counters dues)

/-- Where the part gives a result, it moves no counter. -/
def Quiet (act : Evaluation α) : Prop :=
  ∀ walk result after, act.run walk = .ok result after → after.counters = walk.counters

namespace Quiet

/-- Parts that only write notes are quiet. -/
theorem of_run {act : Evaluation α} {value : α} (notes : FieldPath → List Note)
    (h : ∀ walk, act.run walk = .ok value (walk.write (notes walk.path))) : act.Quiet := by
  intro walk result after hrun
  rw [h walk] at hrun
  cases hrun
  rfl

/-- To return a value asks for no message. -/
theorem pure (value : α) : Quiet (Pure.pure value) := by
  intro walk result after hrun
  cases hrun
  rfl

/-- To write an event asks for no message. -/
theorem log (event : FieldPath → Event) : (Evaluation.log event).Quiet :=
  of_run (fun path => [.event (event path)]) (run_log event)

/-- After its last note a container is put together. -/
theorem log_then (event : FieldPath → Event) (value : α) :
    Quiet (Evaluation.log event >>= fun _ => Pure.pure value) :=
  of_run (fun path => [.event (event path)]) fun _ => rfl

/-- A leaf that is there asks its rule and no catalog. -/
theorem leaf (scope : Validator) (name : String) (value : Json) (draft : Draft) :
    (Evaluation.leaf scope name value draft).Quiet :=
  of_run (leafNotes scope name value) (run_leaf scope name value draft)

/-- To hand a field over asks for no message. -/
theorem delegate (scope : Validator) (name : String) : (Evaluation.delegate scope name).Quiet :=
  of_run (delegateNotes scope name) (run_delegate scope name)

end Quiet

namespace Issues

variable {read : α → FieldPath → Option Json}

/-- A part that asks for no message issues nothing. -/
theorem of_quiet {act : Evaluation α} (quiet : act.Quiet) : act.Issues [] read :=
  fun walk result after hrun => ⟨quiet walk result after hrun, .nil⟩

/-- To return a value issues nothing. -/
theorem pure (value : α) : Issues (Pure.pure value) [] read :=
  of_quiet (.pure value)

/-- A part that gives nothing issues whatever one likes. -/
theorem of_not_gives {act : Evaluation α} (h : ∀ result, ¬Gives act result) (dues : List Due) :
    act.Issues dues read :=
  fun walk result after hrun => absurd ⟨walk, after, hrun⟩ (h result)

/-- The dues of two parts in a row are those of the first and then those of the second, if the
second leaves in place what the first issued. -/
theorem bind {first : Evaluation α} {next : α → Evaluation β} {dues others : List Due}
    {readNext : β → FieldPath → Option Json} (hfirst : first.Issues dues read)
    (hnext : ∀ middle, Gives first middle → (next middle).Issues others readNext)
    (hkeep : ∀ middle result, Gives (next middle) result → ∀ due ∈ dues, ∀ tree,
      read middle due.path = some tree → readNext result due.path = some tree) :
    (first >>= next).Issues (dues ++ others) readNext := by
  intro walk result after hrun
  rw [EStateM.run_bind] at hrun
  cases hmiddle : first.run walk with
  | error error between =>
    rw [hmiddle] at hrun
    cases hrun
  | ok middle between =>
    rw [hmiddle] at hrun
    obtain ⟨hbetween, hdues⟩ := hfirst walk middle between hmiddle
    obtain ⟨hafter, hothers⟩ := hnext middle ⟨walk, between, hmiddle⟩ between result after hrun
    rw [hbetween] at hafter hothers
    -- The messages of the first part are still in place when the second one is done.
    have hkept := (List.forall₂_and_left dues (Due.messages walk.counters dues)).mpr
      ⟨hkeep middle result ⟨between, after, hrun⟩, hdues⟩
    refine ⟨?_, ?_⟩
    · rw [hafter, Due.settle_append]
    · rw [Due.messages_append]
      exact List.rel_append (hkept.imp fun due message h => h.1 _ h.2) hothers

/-- A quiet part does not count. -/
theorem bind_quiet {first : Evaluation α} {next : α → Evaluation β} {dues : List Due}
    {readNext : β → FieldPath → Option Json} (quiet : first.Quiet)
    (hnext : ∀ middle, Gives first middle → (next middle).Issues dues readNext) :
    (first >>= next).Issues dues readNext := by
  have hfirst : first.Issues [] fun _ _ => none := of_quiet quiet
  exact hfirst.bind hnext fun _ _ _ => nofun

/-- What follows quietly and holds what the result held does not count either. -/
theorem bind_of_keep {first : Evaluation α} {next : α → Evaluation β} {dues : List Due}
    {readNext : β → FieldPath → Option Json} (hfirst : first.Issues dues read)
    (quiet : ∀ middle, (next middle).Quiet)
    (hkeep : ∀ middle result, Gives (next middle) result → ∀ due ∈ dues, ∀ tree,
      read middle due.path = some tree → readNext result due.path = some tree) :
    (first >>= next).Issues dues readNext := by
  have hbind : (first >>= next).Issues (dues ++ []) readNext :=
    hfirst.bind (fun middle _ => of_quiet (quiet middle)) hkeep
  rw [List.append_nil] at hbind
  exact hbind

/-- What is made of a result issues the same, if it holds what the result held. -/
theorem map {act : Evaluation α} {dues : List Due} {readNext : β → FieldPath → Option Json}
    (h : act.Issues dues read) (f : α → β)
    (hkeep : ∀ result, ∀ due ∈ dues, ∀ tree,
      read result due.path = some tree → readNext (f result) due.path = some tree) :
    Issues (act >>= fun result => Pure.pure (f result)) dues readNext := by
  refine h.bind_of_keep (fun middle => .pure (f middle)) fun middle result hresult => ?_
  rw [gives_pure hresult]
  exact hkeep middle

/-- One step further inside, the dues are seen from one step outside. -/
theorem inside {act : Evaluation α} {dues : List Due} (step : PathStep)
    (h : act.Issues dues fun result path => read result (step :: path)) :
    (Evaluation.inside step act).Issues (dues.map (Due.within step)) read := by
  intro walk result after hrun
  rw [run_inside] at hrun
  cases hact : act.run (walk.enter step) with
  | error error last =>
    rw [hact] at hrun
    cases hrun
  | ok found last =>
    rw [hact] at hrun
    cases hrun
    -- Which messages are due depends on the counters alone, so not on the step.
    obtain ⟨hcounters, hdues⟩ := h (walk.enter step) result last hact
    refine ⟨?_, ?_⟩
    · rw [Due.settle_within]
      exact hcounters
    · rw [Due.messages_within, List.forall₂_map_left_iff]
      exact hdues

/-- A catalog that is asked gives the one message that is due. -/
theorem require (catalog : Catalog) {f : String → α}
    (hread : ∀ message, read (f message) [] = some (.string message)) :
    Issues (Evaluation.require catalog >>= fun message => Pure.pure (f message))
      [⟨[], catalog⟩] read := by
  intro walk result after hrun
  rw [EStateM.run_bind, run_require] at hrun
  cases hrun
  -- The counter moves on by the one message, and that message stands where it was due.
  exact ⟨rfl, .cons (hread _) .nil⟩

/-- A value of the wrong kind has its message in its place. -/
theorem refuse (catalog : Catalog) (event : FieldPath → Event) :
    (Evaluation.refuse catalog event).Issues [⟨[], catalog⟩] Outcome.errorIn :=
  bind_quiet (.log event) fun _ _ => require catalog fun _ => rfl

/-- A field without a value has its message under its name. -/
theorem absent (catalog : Catalog) (draft : Draft) (name : String) :
    Issues (Evaluation.inside (.field name) (do
      return draft.fail name (← Evaluation.require catalog)))
      [⟨[.field name], catalog⟩] fun draft => draft.outcome.errorIn := by
  have hread (message : String) :
      (draft.fail name message).outcome.errorIn [.field name] = some (.string message) := by
    rw [Draft.errorIn_field]
    show ((Members.get? name (Members.insert name (.string message) draft.errors)).bind
      some).bind Json.nonNull? = _
    rw [Members.get?_insert_self]
    rfl
  have hinner : Issues (do return draft.fail name (← Evaluation.require catalog))
      [⟨[], catalog⟩] fun draft path => draft.outcome.errorIn (.field name :: path) :=
    require catalog hread
  exact hinner.inside (.field name)

/-- Items issue what is due in each of them, in their order. The slots are counted behind those of
the items that came before. -/
theorem eachItem {act : Json → Evaluation Outcome} {dues : Json → List Due}
    (h : ∀ item, (act item).Issues (dues item) Outcome.errorIn) (items : List Json)
    (before : List Outcome) :
    (Evaluation.eachItem act before.length items).Issues
      ((items.zipIdx before.length).flatMap fun (item, position) =>
        (dues item).map (Due.within (.index position)))
      fun outcomes => (Outcome.ofItems (before ++ outcomes)).errorIn := by
  induction items generalizing before with
  | nil => exact pure []
  | cons item rest ih =>
    rw [List.zipIdx_cons, List.flatMap_cons]
    -- What came of the item has the next slot, whatever comes behind it.
    have hslot (outcome : Outcome) (others : List Outcome) :
        (before ++ outcome :: others)[before.length]? = some outcome := by simp
    have hitem : (Evaluation.inside (.index before.length) (act item)).Issues
        ((dues item).map (Due.within (.index before.length)))
        fun outcome => (Outcome.ofItems (before ++ [outcome])).errorIn := by
      refine inside (.index before.length) ?_
      simp only [Outcome.errorIn_index (hslot _ [])]
      exact h item
    refine hitem.bind (fun outcome _ => ?_) fun outcome result hresult due hdue tree htree => ?_
    · have hrest := ih (before ++ [outcome])
      rw [List.length_append, List.length_singleton] at hrest
      refine hrest.map (outcome :: ·) fun outcomes due _ tree htree => ?_
      rw [List.append_assoc, List.singleton_append] at htree
      exact htree
    · -- More slots behind it do not move the slot of this item.
      obtain ⟨others, -, hothers⟩ := gives_bind hresult
      obtain ⟨inner, -, rfl⟩ := List.mem_map.mp hdue
      rw [gives_pure hothers]
      show (Outcome.ofItems (before ++ outcome :: others)).errorIn
        (.index before.length :: inner.path) = some tree
      rw [Outcome.errorIn_index (hslot outcome others),
        ← Outcome.errorIn_index (hslot outcome [])]
      exact htree

end Issues

end Evaluation

open Evaluation

/-- A structured field holds under its name what the outcome of its value holds. -/
theorem Draft.errorIn_splice {draft : Draft} {name : String} {outcome : Outcome}
    {path : FieldPath} {tree : Json} (h : outcome.errorIn path = some tree) :
    (draft.splice name outcome).outcome.errorIn (.field name :: path) = some tree := by
  rw [Draft.errorIn_field, Draft.get?_errors_splice]
  cases herrors : outcome.errors with
  | none =>
    unfold Outcome.errorIn at h
    rw [herrors] at h
    cases h
  | some errors =>
    unfold Outcome.errorIn at h
    rw [herrors] at h
    exact h

/-- Fields of other names leave in place what a field issued. -/
theorem Field.errorIn_of_gives_all {field : Field} {rest : List Field} {scope : Validator}
    {members : Members} {middle result : Draft} (hname : field.name ∉ rest.map Field.name)
    (h : Gives (Field.evaluateAll scope members middle rest) result) {due : Due}
    (hdue : due ∈ field.dues scope members) {tree : Json}
    (htree : middle.outcome.errorIn due.path = some tree) :
    result.outcome.errorIn due.path = some tree := by
  -- All that a field has to issue is under its name.
  obtain ⟨inner, hpath⟩ := Field.exists_path_of_mem_dues hdue
  rw [hpath, Draft.errorIn_field] at htree ⊢
  rw [(Field.keeps_of_gives_all hname h).errors]
  exact htree

mutual

/-- The outcome of a value holds the messages that are due in it. -/
theorem Shape.issues (shape : Shape) (distinct : shape.DistinctNames) (scope : Validator)
    (value : Json) :
    (shape.evaluate scope value).Issues (shape.dues scope value) Outcome.errorIn := by
  by_cases hkind : value.kind = shape.kind
  · match shape with
    | .object fields =>
      obtain ⟨members, rfl⟩ := Json.exists_of_kind_object hkind
      have hinside := Field.eachInside_iff.mp distinct.2
      refine (Field.issues_all fields distinct.1 hinside scope members {}).bind_of_keep
        (fun draft => .log_then _ draft.outcome) fun draft outcome houtcome due _ tree htree => ?_
      obtain ⟨⟨⟩, -, houtcome⟩ := gives_bind houtcome
      rw [gives_pure houtcome]
      exact htree
    | .emptyArray =>
      obtain ⟨items, rfl⟩ := Json.exists_of_kind_array hkind
      cases items with
      | nil => exact .pure (Outcome.passed (.array []))
      | cons item rest =>
        -- Items would have ended the evaluation.
        refine .of_not_gives (fun outcome h => ?_) []
        cases (Shape.gives_emptyArray h).1
    | .arrayOf element =>
      obtain ⟨items, rfl⟩ := Json.exists_of_kind_array hkind
      cases items with
      | nil => exact .pure (Outcome.passed (.array []))
      | cons item rest =>
        have hitems := Issues.eachItem (fun item => element.issues distinct scope item)
          (item :: rest) []
        refine hitems.bind_of_keep (fun outcomes => .log_then _ (Outcome.ofItems outcomes))
          fun outcomes outcome houtcome due _ tree htree => ?_
        obtain ⟨⟨⟩, -, houtcome⟩ := gives_bind houtcome
        rw [gives_pure houtcome]
        exact htree
  · have hdues : shape.dues scope value = [⟨[], scope.catalog⟩] :=
      Shape.dues_of_kind_ne hkind scope
    rw [Shape.evaluate_of_kind_ne hkind, hdues]
    exact .refuse scope.catalog shape.refusal

/-- A field holds the messages that are due in it under its name. -/
theorem Field.issues (field : Field)
    (distinct : ∀ name shape, field = .nested name shape → shape.DistinctNames)
    (scope : Validator) (members : Members) (draft : Draft) :
    (field.evaluate scope members draft).Issues (field.dues scope members)
      fun draft => draft.outcome.errorIn := by
  match field with
  | .leaf name =>
    rw [Field.evaluate_leaf]
    unfold Field.dues
    cases Members.present? name members with
    | none => exact .absent scope.catalog draft name
    | some value =>
      exact Issues.inside (.field name) (.of_quiet (.leaf scope name value draft))
  | .nested name shape =>
    rw [Field.evaluate_nested]
    unfold Field.dues
    cases Members.present? name members with
    | none => exact .absent scope.catalog draft name
    | some value =>
      refine Issues.inside (.field name)
        (.bind_quiet (.delegate scope name) fun inner hinner => ?_)
      rw [gives_delegate hinner]
      -- The tree of the value is put under the name as a whole, and no message moves in it.
      refine (shape.issues (distinct name shape rfl) _ value).map (draft.splice name) ?_
      exact fun outcome due _ tree htree => Draft.errorIn_splice htree

/-- Fields with distinct names hold the messages that are due in them. -/
theorem Field.issues_all (fields : List Field) (nodup : (fields.map Field.name).Nodup)
    (distinct : ∀ name shape, Field.nested name shape ∈ fields → shape.DistinctNames)
    (scope : Validator) (members : Members) (draft : Draft) :
    (Field.evaluateAll scope members draft fields).Issues (Field.allDues scope members fields)
      fun draft => draft.outcome.errorIn := by
  match fields with
  | [] => exact .pure draft
  | field :: rest =>
    -- No other field has this name, so the rest leaves its messages in place.
    obtain ⟨hname, nodup⟩ := List.nodup_cons.mp nodup
    have hfield := field.issues (fun name shape heq => distinct name shape
      (heq ▸ List.mem_cons_self)) scope members draft
    refine hfield.bind (fun middle _ => ?_) fun middle result hresult due hdue tree htree => ?_
    · exact Field.issues_all rest nodup
        (fun name shape hmem => distinct name shape (List.mem_cons_of_mem _ hmem))
        scope members middle
    · exact Field.errorIn_of_gives_all hname hresult hdue htree

end

end DocShape
