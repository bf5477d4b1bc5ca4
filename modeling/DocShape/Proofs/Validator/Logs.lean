import DocShape.Proofs.Shape.RoundTrip
import DocShape.Proofs.Validator.Forms
import DocShape.Proofs.Validator.Issues
import DocShape.Proofs.Validator.Outlines
import DocShape.Proofs.Validator.Traces

/-!
# `DocShape.Proofs.Validator.Logs`: the log agrees with the result

The events of a validation are told by the remarks on its document, one by one, so those at or
below a place are told by the remarks that `Position.filter_remarks` takes out of the list. A
closing event has the numbers of some outcome of its position. All outcomes of a position are the
same but for their messages, and the trees of the document hold one of them at its place, so the
numbers are those of the trees. `Position.LogAgrees` says what this comes to,
`Validator.log_agrees` that it is so for every validation that gives an outcome.
-/

set_option autoImplicit false

namespace DocShape

/-! ### The numbers of closing events -/

namespace Outcome

/-- Messages have no say in the number of keys. -/
theorem keys_map_skeleton (tree : Option Json) : keys (tree.map Json.skeleton) = keys tree := by
  have hlength (members : Members) : (Json.skeletonMembers members).length = members.length := by
    induction members with
    | nil => rfl
    | cons entry rest ih => exact congrArg (· + 1) ih
  cases tree with
  | none => rfl
  | some value =>
    cases value with
    | object members => exact hlength members
    | _ => rfl

/-- A slot has the keys of the tree that it is for. -/
theorem keys_slot (part : Outcome) (last : Option PathStep) :
    keys (part.slot last) = keys part.valid := by
  unfold slot validTree
  split
  · cases part.valid <;> rfl
  · rfl

end Outcome

/-- A closing event has the numbers of every outcome of the position. -/
theorem Topic.Tells.closing?_eq {position : Position} {path : FieldPath} {event : Event}
    (tells : (Topic.closing position).Tells path event) {outcome : Outcome}
    (h : position.Gives outcome) :
    position.closing? path (Outcome.keys outcome.errors) (Outcome.keys outcome.valid)
      outcome.errors.isSome = some event := by
  obtain ⟨part, known, hevent⟩ := tells
  rw [← hevent]
  rcases known with hshape | hpart
  · -- No event about such a shape has numbers of an outcome.
    obtain ⟨scope, shape, value⟩ := position
    cases hshape
    cases value with
    | array items => cases items <;> rfl
    | _ => rfl
  · -- Two outcomes of one position differ in their messages only.
    have hsame := position.shape.wordless_congr_of_gives h hpart
    have herrors : outcome.errors.map Json.skeleton = part.errors.map Json.skeleton :=
      congrArg Outcome.errors hsame
    have hvalid : outcome.valid = part.valid := by
      show outcome.wordless.valid = part.wordless.valid
      rw [hsame]
    have hsome := congrArg Option.isSome herrors
    rw [Option.isSome_map, Option.isSome_map] at hsome
    rw [← Outcome.keys_map_skeleton outcome.errors, herrors, Outcome.keys_map_skeleton, hvalid,
      hsome]

/-! ### Events at and below a place -/

/-- What is related to two rows, one behind the other, is two rows as well. -/
theorem exists_append_of_forall₂ {α β : Type} {holds : α → β → Prop} {front back : List α}
    {row : List β} (h : List.Forall₂ holds (front ++ back) row) :
    ∃ first last, row = first ++ last ∧ List.Forall₂ holds front first ∧
      List.Forall₂ holds back last := by
  induction front generalizing row with
  | nil => exact ⟨[], row, rfl, .nil, h⟩
  | cons item rest ih =>
    cases h with
    | cons hitem hrest =>
      obtain ⟨first, last, rfl, hfirst, hlast⟩ := ih hrest
      exact ⟨_ :: first, last, rfl, .cons hitem hfirst, hlast⟩

/-- Only its own event tells an opening remark. -/
theorem Remark.eq_of_forall₂_opens {start path : FieldPath} {openings : List Opening}
    {events : List Event} (h : List.Forall₂ (Tells start) (openings.map (opens path)) events) :
    events = openings.map (Opening.event (start ++ path)) := by
  induction openings generalizing events with
  | nil =>
    cases h
    rfl
  | cons opening rest ih =>
    cases h with
    | cons tells hrest =>
      have hevent : _ = opening.event (start ++ path) := tells
      rw [hevent, ih hrest]
      rfl

/-- Only the event with the numbers of the outcome tells that a position is closed, and none at
all if the position is left in silence. -/
theorem Position.eq_of_forall₂_closings {position : Position} {part : Outcome}
    (h : position.Gives part) {path : FieldPath} {events : List Event}
    (tells : List.Forall₂ (Remark.Tells []) (position.closings.map (Remark.below path)) events) :
    events = (position.closing? path (Outcome.keys part.errors) (Outcome.keys part.valid)
      part.errors.isSome).toList := by
  have hnone := position.closing?_isNone path (Outcome.keys part.errors)
    (Outcome.keys part.valid) part.errors.isSome
  unfold closings at tells
  -- A silent position has no closing remark and no closing event, any other has one of each.
  cases hsilent : position.isSilent with
  | true =>
    rw [hsilent, if_pos rfl] at tells
    rw [hsilent, Option.isNone_iff_eq_none] at hnone
    cases tells
    rw [hnone]
    rfl
  | false =>
    rw [hsilent, if_neg Bool.false_ne_true] at tells
    cases tells with
    | @cons _ event _ _ tells hrest =>
      cases hrest
      have hplace : (Topic.closing position).Tells path event := by
        have hshown : (Topic.closing position).Tells ([] ++ (path ++ [])) event := tells
        rwa [List.nil_append, List.append_nil] at hshown
      rw [hplace.closing?_eq h]
      rfl

/-- The log agrees with the two trees of the outcome. -/
structure Position.LogAgrees (root : Position) (outcome : Outcome) (events : List Event) :
    Prop where
  /-- Every position that is visited is closed by the one event that its value asks for, or by
  none if it is an empty array. The numbers of the event are those of the trees at the place, and
  all other events about the place and its inside stand before it. -/
  closed : ∀ path position, root.at? path = some position →
    ∃ before passed,
      events.filter (Event.isWithin path) =
        before ++ (position.closing? path
          (Outcome.keys (outcome.errorAt? (FieldPath.pointer path).text)) passed
          (outcome.errorAt? (FieldPath.pointer path).text).isSome).toList ∧
      (∀ event ∈ before, event.path? = some path → event.isOpening = true) ∧
      (root.scope.NoSetters →
        passed = Outcome.keys (outcome.validAt? (FieldPath.pointer path).text))
  /-- An array that is visited is empty or its shape says what its items are. -/
  specified : ∀ path scope items, root.at? path = some ⟨scope, .emptyArray, .array items⟩ →
    items = []
  /-- Every field of an object that is visited is opened by the events that the schema asks for,
  if it has a value. They stand before all others about its inside, and there are no others if the
  field is a leaf or has no value. -/
  opened : ∀ path scope fields members field,
    root.at? path = some ⟨scope, .object fields, .object members⟩ → field ∈ fields →
    ∃ behind,
      events.filter (Event.isWithin (path ++ [.field field.name])) =
        (if (Members.present? field.name members).isSome then
          (field.openings scope).map (Opening.event (path ++ [.field field.name]))
        else []) ++ behind ∧
      (∀ event ∈ behind, event.path? = some (path ++ [.field field.name]) →
        event.isOpening = false) ∧
      (field.isLeaf = true ∨ Members.present? field.name members = none → behind = [])
  /-- Every event closes a position that is visited, or opens a field of an object that is. -/
  visited : ∀ event ∈ events, ∃ remark, root.Makes remark ∧ event.path? = some remark.path ∧
    event.isOpening = remark.topic.isOpening

namespace Position

variable {root : Position} {outcome : Outcome} {events : List Event}

/-- At a position, the events told by the remarks end with the one that closes it, with the
numbers of the two trees. What stands in front opens the place or is about its inside. -/
theorem closed_of_follows (tells : List.Forall₂ (Remark.Tells []) root.remarks events)
    (distinct : root.shape.DistinctNames) (h : root.Gives outcome) {path : FieldPath}
    {position : Position} (hpath : root.at? path = some position) :
    ∃ before passed,
      events.filter (Event.isWithin path) =
        before ++ (position.closing? path
          (Outcome.keys (outcome.errorAt? (FieldPath.pointer path).text)) passed
          (outcome.errorAt? (FieldPath.pointer path).text).isSome).toList ∧
      (∀ event ∈ before, event.path? = some path → event.isOpening = true) ∧
      (root.scope.NoSetters →
        passed = Outcome.keys (outcome.validAt? (FieldPath.pointer path).text)) := by
  obtain ⟨part, hpart, herrors, hvalid⟩ := exists_part hpath distinct h
  obtain ⟨opened, hopened, hwithin⟩ := filter_remarks hpath distinct
  obtain ⟨front, hremarks, hfront⟩ := position.exists_remarks_eq
  -- At the place: what opens it, what is said about its inside, and what closes it.
  have hfiltered := Remark.forall₂_filter tells path
  rw [hwithin, hremarks, List.map_append, ← List.append_assoc] at hfiltered
  obtain ⟨before, last, hevents, hbefore, hlast⟩ := exists_append_of_forall₂ hfiltered
  refine ⟨before, Outcome.keys part.valid, ?_, fun event hevent hplace => ?_, fun free => ?_⟩
  · have herrorAt : outcome.errorAt? path.pointer.text = part.errors :=
      (outcome.errorAt?_pointer path).trans herrors
    rw [hevents, herrorAt, eq_of_forall₂_closings hpart hlast]
  · obtain ⟨remark, hremark, tells⟩ := exists_mem_of_forall₂ hbefore hevent
    have hsame := tells.path_eq hplace
    rw [tells.path?_eq.2]
    rcases List.mem_append.mp hremark with hremark | hremark
    · exact (hopened remark hremark).2
    · -- A remark on the inside of the position is about a longer path.
      obtain ⟨inner, hinner, rfl⟩ := List.mem_map.mp hremark
      exact absurd (List.append_right_eq_self.mp hsame) (hfront inner hinner)
  · have hvalidAt : outcome.validAt? path.pointer.text = part.slot path.getLast? := by
      unfold Outcome.validAt?
      simp only [Json.atPointer?_text]
      exact hvalid free
    rw [hvalidAt, Outcome.keys_slot]

/-- What opens the value of a field stands before what is said about it. -/
theorem exists_events_of_field {scope : Validator} {members : Members} {field : Field}
    {start : FieldPath}
    (tells : List.Forall₂ (Remark.Tells [])
      ((field.remarks scope members).map (Remark.below start)) events) :
    ∃ behind,
      events = (if (Members.present? field.name members).isSome then
          (field.openings scope).map (Opening.event (start ++ [.field field.name]))
        else []) ++ behind ∧
      (∀ event ∈ behind, event.path? = some (start ++ [.field field.name]) →
        event.isOpening = false) ∧
      (field.isLeaf = true ∨ Members.present? field.name members = none → behind = []) := by
  -- An opening is told by one event only.
  have hopens {openings : List Opening} {events : List Event} (name : String)
      (tells : List.Forall₂ (Remark.Tells [])
        ((openings.map (Remark.opens [.field name])).map (Remark.below start)) events) :
      events = openings.map (Opening.event (start ++ [.field name])) := by
    have hplace : List.Forall₂ (Remark.Tells [])
        (openings.map (Remark.opens (start ++ [.field name]))) events := by
      rw [List.map_map] at tells
      exact tells
    have hevents := Remark.eq_of_forall₂_opens hplace
    rwa [List.nil_append] at hevents
  cases hpresent : Members.present? field.name members with
  | none =>
    rw [Field.remarks_of_absent hpresent] at tells
    cases tells
    exact ⟨[], rfl, nofun, fun _ => rfl⟩
  | some value =>
    cases field with
    | leaf name =>
      rw [Field.name_leaf] at hpresent
      simp only [Field.remarks, hpresent] at tells
      refine ⟨[], ?_, nofun, fun _ => rfl⟩
      rw [hopens name tells, List.append_nil]
      rfl
    | nested name shape =>
      rw [Field.name_nested] at hpresent
      simp only [Field.remarks, hpresent, List.map_append] at tells
      obtain ⟨first, behind, rfl, hfirst, hbehind⟩ := exists_append_of_forall₂ tells
      refine ⟨behind, by rw [hopens name hfirst]; rfl, fun event hevent hplace => ?_, nofun⟩
      obtain ⟨remark, hremark, tells⟩ := exists_mem_of_forall₂ hbehind hevent
      rw [tells.path?_eq.2]
      rw [Remark.map_below_below] at hremark
      obtain ⟨inner, hinner, rfl⟩ := List.mem_map.mp hremark
      have hsame : start ++ [.field name] ++ inner.path = start ++ [.field name] :=
        tells.path_eq hplace
      -- The only remark on the place itself is the one that closes it.
      obtain ⟨front, hremarks, hfront⟩ :=
        exists_remarks_eq ⟨scope.scopeFor name, shape, value⟩
      have hinner : inner ∈ front ++ closings ⟨scope.scopeFor name, shape, value⟩ :=
        hremarks ▸ hinner
      rcases List.mem_append.mp hinner with hinner | hinner
      · exact absurd (List.append_right_eq_self.mp hsame) (hfront inner hinner)
      · rw [mem_closings hinner]
        rfl

/-- At a field of an object, the events told by the remarks begin with those that open the
field. -/
theorem opened_of_follows (tells : List.Forall₂ (Remark.Tells []) root.remarks events)
    (distinct : root.shape.DistinctNames) {path : FieldPath} {scope : Validator}
    {fields : List Field} {members : Members} {field : Field}
    (hpath : root.at? path = some ⟨scope, .object fields, .object members⟩)
    (declared : field ∈ fields) :
    ∃ behind,
      events.filter (Event.isWithin (path ++ [.field field.name])) =
        (if (Members.present? field.name members).isSome then
          (field.openings scope).map (Opening.event (path ++ [.field field.name]))
        else []) ++ behind ∧
      (∀ event ∈ behind, event.path? = some (path ++ [.field field.name]) →
        event.isOpening = false) ∧
      (field.isLeaf = true ∨ Members.present? field.name members = none → behind = []) := by
  obtain ⟨opened, hopened, hwithin⟩ := filter_remarks hpath distinct
  have hnames : (Shape.object fields).DistinctNames :=
    @holds_of_at? (fun position => position.shape.DistinctNames)
      (fun inside distinct => inside.distinctNames distinct) _ _ _ hpath distinct
  have hfield : root.remarks.filter (Remark.isWithin (path ++ [.field field.name])) =
      (field.remarks scope members).map (Remark.below path) := by
    -- What opens the object itself is said one step further outside.
    have hopenedNil : opened.filter (Remark.isWithin (path ++ [.field field.name])) = [] := by
      refine List.filter_eq_nil_iff.mpr fun remark hremark => ?_
      unfold Remark.isWithin
      rw [(hopened remark hremark).1, List.isPrefixOf_iff_prefix]
      intro hlonger
      have hlength := hlonger.length_le
      simp at hlength
    rw [← Remark.filter_filter_append, hwithin, List.filter_append, hopenedNil, List.nil_append,
      Remark.filter_below]
    exact congrArg (List.map (Remark.below path)) (filter_remarks_field hnames.1 declared)
  have hfiltered := Remark.forall₂_filter tells (path ++ [.field field.name])
  rw [hfield] at hfiltered
  exact exists_events_of_field hfiltered

/-- Events that tell the remarks on a document agree with its outcome. -/
theorem logAgrees_of_follows (tells : List.Forall₂ (Remark.Tells []) root.remarks events)
    (distinct : root.shape.DistinctNames) (h : root.Gives outcome) :
    root.LogAgrees outcome events where
  closed _ _ hpath := closed_of_follows tells distinct h hpath
  specified path scope items hpath := by
    obtain ⟨part, hpart, -⟩ := exists_part hpath distinct h
    exact (Shape.gives_emptyArray hpart).1
  opened _ _ _ _ _ hpath declared := opened_of_follows tells distinct hpath declared
  visited event hevent := by
    obtain ⟨remark, hremark, tells⟩ := exists_mem_of_forall₂ tells hevent
    exact ⟨remark, root.shape.makes_of_mem_remarks distinct hremark, tells.path?_eq⟩

end Position

namespace Validator

/-- The log of a validation that gives an outcome agrees with the outcome, event by event, and a
last event says whether anything failed. -/
theorem log_agrees {source : String} {limit : Nat} {shape : Shape}
    (parsed : Shape.parse source limit = .ok shape) {validator : Validator} {document : Json}
    {store : Store} {outcome : Outcome}
    (answered : (validator.validateShape shape document).answer store = .ok outcome) :
    ∃ events, (Session.withEvents (validator.validateShape shape document)).answer store =
        (.ok outcome, events ++ [.finished outcome.isValid]) ∧
      Position.LogAgrees ⟨validator, shape, document⟩ outcome events := by
  obtain ⟨told, events, -, tells, hlog⟩ := validator.exists_events shape document store
  rw [answered] at hlog
  obtain ⟨rfl, hlog⟩ := hlog
  have distinct := (Shape.wellFormed_of_parse parsed).1.distinct
  have hgives : Position.Gives ⟨validator, shape, document⟩ outcome := gives_of_answer answered
  exact ⟨events, hlog, Position.logAgrees_of_follows tells distinct hgives⟩

/-- A validator for a leaf, a validator and a rule for fields with shapes, an item and a field of
the wrong kind, and an empty array. -/
theorem log_of_owner :
    let owner : Validator :=
      { (default : Validator) with
        schema := .ofList [("name", .nested default), ("pets", .nested default),
          ("tags", .rule { test := none, set := none })]
        catalog := .fixed "missing" }
    let shape : Shape := .object [.leaf "name",
      .nested "pets" (.arrayOf (.object [.leaf "name"])), .nested "tags" .emptyArray,
      .nested "toys" .emptyArray]
    let document : Json := .object [("name", .string "ann"),
      ("pets", .array [.object [("name", .string "lace")], .nat 3]), ("tags", .string "red"),
      ("toys", .array [])]
    let outcome : Outcome :=
      ⟨some (.object [("name", .string "ann"),
          ("pets", .array [.object [("name", .string "lace")], .null]), ("toys", .array [])]),
        some (.object [("pets", .array [.null, .string "This information is required"]),
          ("tags", .string "missing")])⟩
    Shape.parse "{name,pets[{name}],tags[],toys[]}" 4 = .ok shape ∧
      (owner.validateShape shape document).answer {} = .ok outcome ∧
      (Session.withEvents (owner.validateShape shape document)).answer {} =
        (.ok outcome, [.nestedOnLeaf [.field "name"], .delegating [.field "pets"],
          .evaluatedObject [.field "pets", .index 0] 0 1,
          .expectedObject [.field "pets", .index 1], .evaluatedArray [.field "pets"] 2 true,
          .ruleIgnored [.field "tags"], .expectedArray [.field "tags"], .evaluatedObject [] 2 3,
          .finished false]) ∧
      ∃ events, (Session.withEvents (owner.validateShape shape document)).answer {} =
          (.ok outcome, events ++ [.finished outcome.isValid]) ∧
        Position.LogAgrees ⟨owner, shape, document⟩ outcome events := by
  intro owner shape document outcome
  have parsed : Shape.parse "{name,pets[{name}],tags[],toys[]}" 4 = .ok shape := by rfl
  have answered : (owner.validateShape shape document).answer {} = .ok outcome := by
    decide +kernel
  exact ⟨parsed, answered, by decide +kernel, log_agrees parsed answered⟩

end Validator

end DocShape
