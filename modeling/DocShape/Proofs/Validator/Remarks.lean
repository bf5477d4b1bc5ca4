import DocShape.Proofs.Validator.Positions
import Mathlib.Data.List.Sigma

/-!
# `DocShape.Proofs.Validator.Remarks`: what the log has to say about a value

A validation remarks on the places that it comes to. An opening remark says to whom the value of a
field goes, a closing remark says what became of a container, after all that is said about its
inside. `Shape.remarks` lists the remarks on a value in the order of a walk, from the shape, the
value and the validator alone. The numbers in a closing remark are left open: a remark knows the
position that it closes, not its outcome.

`Position.filter_remarks` takes the remarks at or below a place out of the list. What is left are
the remarks of the position there, behind those that open it. `Shape.makes_of_mem_remarks` says
the converse: every remark closes a position or opens a field that a walk comes to. It needs names
that do not repeat, `Shape.voices_of_mem_remarks` does not.
-/

set_option autoImplicit false

namespace DocShape

/-- Remarks on the value of a field before anything else is said about it. -/
inductive Opening where
  | delegating
  | ruleIgnored
  | nestedOnLeaf
  deriving DecidableEq

/-- The event of an opening remark. -/
def Opening.event (path : FieldPath) : Opening → Event
  | delegating => .delegating path
  | ruleIgnored => .ruleIgnored path
  | nestedOnLeaf => .nestedOnLeaf path

namespace Event

/-- Whether the event opens a place. -/
def isOpening : Event → Bool
  | delegating _ | ruleIgnored _ | nestedOnLeaf _ => true
  | _ => false

/-- Whether the event is about the end of a path or a place further inside. -/
def isWithin (path : FieldPath) (event : Event) : Bool :=
  event.path?.any path.isPrefixOf

end Event

/-- The remarks that open a field with a value. -/
def Field.openings (scope : Validator) : Field → List Opening
  | .leaf name => if (scope.resolve name).isNested then [.nestedOnLeaf] else []
  | .nested name _ =>
    match scope.resolve name with
    | .default => []
    | .rule _ => [.ruleIgnored]
    | .nested _ => [.delegating]

/-- The number of keys of a tree, 0 if there is none. -/
def Outcome.keys : Option Json → Nat
  | some (.object members) => members.length
  | _ => 0

/-- The event that closes a position, if there is one, from the number of keys that failed, the
number of keys that passed and whether anything failed. -/
def Position.closing? (position : Position) (path : FieldPath) (failed passed : Nat)
    (anyFailed : Bool) : Option Event :=
  match position.shape, position.value with
  | .object _, .object _ => some (.evaluatedObject path failed passed)
  | .object _, _ => some (.expectedObject path)
  | _, .array [] => none
  | .arrayOf _, .array items => some (.evaluatedArray path items.length anyFailed)
  | .emptyArray, .array items => some (.shapeNotSpecified path items.length)
  | _, _ => some (.expectedArray path)

/-- Whether nothing is said when the position is left: an array shape, and no items. -/
def Position.isSilent (position : Position) : Bool :=
  match position.shape, position.value with
  | .object _, _ => false
  | _, .array [] => true
  | _, _ => false

/-- What a remark is about. -/
inductive Topic where
  /-- To whom the value of a field goes. -/
  | opening (opening : Opening)
  /-- What became of a position. -/
  | closing (position : Position)

/-- Whether a remark on the topic opens a place. -/
def Topic.isOpening : Topic → Bool
  | opening _ => true
  | closing _ => false

/-- A remark on a place. -/
structure Remark where
  /-- The path to the place, from the value at work. -/
  path : FieldPath
  topic : Topic

namespace Remark

/-- A remark that opens a place. -/
def opens (path : FieldPath) (opening : Opening) : Remark :=
  ⟨path, .opening opening⟩

/-- The remark as it is seen from the start of a path that leads to the value at work. -/
def below (start : FieldPath) (remark : Remark) : Remark :=
  { remark with path := start ++ remark.path }

/-- Whether the remark is about the end of a path or a place further inside. -/
def isWithin (path : FieldPath) (remark : Remark) : Bool :=
  path.isPrefixOf remark.path

end Remark

/-- The remark that closes a position, unless there is nothing to say. -/
def Position.closings (position : Position) : List Remark :=
  if position.isSilent then [] else [⟨[], .closing position⟩]

mutual

/-- The remarks on a value, in the order of a walk. -/
def Shape.remarks (scope : Validator) (value : Json) : Shape → List Remark
  | .object fields =>
    (match value with
      | .object members => Field.allRemarks scope members fields
      | _ => []) ++ Position.closings ⟨scope, .object fields, value⟩
  | .emptyArray => Position.closings ⟨scope, .emptyArray, value⟩
  | .arrayOf element =>
    (match value with
      | .array items => items.zipIdx.flatMap fun (item, index) =>
        (element.remarks scope item).map (Remark.below [.index index])
      | _ => []) ++ Position.closings ⟨scope, .arrayOf element, value⟩

/-- The remarks on the value of a field. -/
def Field.remarks (scope : Validator) (members : Members) : Field → List Remark
  | .leaf name =>
    match Members.present? name members with
    | none => []
    | some _ => ((Field.leaf name).openings scope).map (Remark.opens [.field name])
  | .nested name shape =>
    match Members.present? name members with
    | none => []
    | some value =>
      ((Field.nested name shape).openings scope).map (Remark.opens [.field name]) ++
        (shape.remarks (scope.scopeFor name) value).map (Remark.below [.field name])

/-- The remarks on the values of fields, in their order. -/
def Field.allRemarks (scope : Validator) (members : Members) : List Field → List Remark
  | [] => []
  | field :: rest => field.remarks scope members ++ Field.allRemarks scope members rest

end

/-! ### The remarks at or below a place -/

namespace Remark

/-- Every place is at or below the root. -/
theorem isWithin_nil (remark : Remark) : remark.isWithin [] = true :=
  rfl

/-- Remarks that are seen from further outside. -/
theorem isWithin_below (start path : FieldPath) (remark : Remark) :
    (remark.below start).isWithin (start ++ path) = remark.isWithin path := by
  unfold isWithin below
  -- Both sides ask for a prefix, and the steps that both have in front can go.
  rw [Bool.eq_iff_iff, List.isPrefixOf_iff_prefix, List.isPrefixOf_iff_prefix,
    List.prefix_append_right_inj]

/-- What is at or below a place is so as well when all is seen from further outside. -/
theorem filter_below (start path : FieldPath) (remarks : List Remark) :
    (remarks.map (below start)).filter (isWithin (start ++ path)) =
      (remarks.filter (isWithin path)).map (below start) := by
  rw [List.filter_map]
  congr 1
  exact List.filter_congr fun remark _ => isWithin_below start path remark

/-- What is said further inside is among what is said inside. -/
theorem filter_filter_append (front rest : FieldPath) (remarks : List Remark) :
    (remarks.filter (isWithin front)).filter (isWithin (front ++ rest)) =
      remarks.filter (isWithin (front ++ rest)) := by
  rw [List.filter_filter]
  refine List.filter_congr fun remark _ => ?_
  -- Within the longer path is within the shorter one.
  rw [Bool.and_eq_left_iff_imp]
  unfold isWithin
  rw [List.isPrefixOf_iff_prefix, List.isPrefixOf_iff_prefix]
  exact (List.prefix_append front rest).trans

/-- Seen from where they are, remarks stay as they are. -/
theorem map_below_nil (remarks : List Remark) : remarks.map (below []) = remarks :=
  List.map_id remarks

/-- Remarks can be moved outward step by step or at once. -/
theorem map_below_below (start rest : FieldPath) (remarks : List Remark) :
    (remarks.map (below rest)).map (below start) = remarks.map (below (start ++ rest)) := by
  simp [below, Function.comp_def]

/-- Where each of several parts has a step of its own, what is said below one step is said in that
part. -/
theorem filter_flatMap {α : Type} (step : α → PathStep) {remarks : α → List Remark}
    (inside : ∀ part, ∀ remark ∈ remarks part, ∃ rest, remark.path = step part :: rest)
    {parts : List α} (nodup : (parts.map step).Nodup) {part : α} (hpart : part ∈ parts) :
    (parts.flatMap remarks).filter (isWithin [step part]) = remarks part := by
  have hsame (part : α) : (remarks part).filter (isWithin [step part]) = remarks part := by
    refine List.filter_eq_self.mpr fun remark hremark => ?_
    obtain ⟨rest, hpath⟩ := inside part remark hremark
    simp [isWithin, hpath]
  -- In a part with another step nothing is below this one.
  have hother {other : α} (hne : step other ≠ step part) :
      (remarks other).filter (isWithin [step part]) = [] := by
    refine List.filter_eq_nil_iff.mpr fun remark hremark => ?_
    obtain ⟨rest, hpath⟩ := inside other remark hremark
    simp [isWithin, hpath, Ne.symm hne]
  induction parts with
  | nil => cases hpart
  | cons first others ih =>
    obtain ⟨hfresh, nodup⟩ := List.nodup_cons.mp nodup
    rw [List.flatMap_cons, List.filter_append]
    rcases List.mem_cons.mp hpart with rfl | hpart
    · -- The other parts have other steps.
      have hothers : (others.flatMap remarks).filter (isWithin [step part]) = [] := by
        rw [List.filter_flatMap]
        refine List.flatMap_eq_nil_iff.mpr fun other hmem => hother fun heq => ?_
        exact hfresh (heq ▸ List.mem_map_of_mem hmem)
      rw [hsame, hothers, List.append_nil]
    · have hne : step first ≠ step part := fun heq =>
        hfresh (heq ▸ List.mem_map_of_mem hpart)
      rw [hother hne, List.nil_append, ih nodup hpart]

end Remark

namespace Position

/-- The remark that closes a position is about the place itself. -/
theorem mem_closings {position : Position} {remark : Remark} (h : remark ∈ position.closings) :
    remark = ⟨[], .closing position⟩ := by
  unfold closings at h
  split at h
  · cases h
  · exact List.mem_singleton.mp h

/-- What closes a position is not about its inside. -/
theorem filter_closings (position : Position) (step : PathStep) (rest : FieldPath) :
    position.closings.filter (Remark.isWithin (step :: rest)) = [] := by
  refine List.filter_eq_nil_iff.mpr fun remark hremark => ?_
  rw [mem_closings hremark]
  exact Bool.false_ne_true

end Position

/-- A value of another kind than the shape asks for is closed at once. -/
theorem Shape.remarks_of_kind_ne {shape : Shape} {value : Json} (hkind : value.kind ≠ shape.kind)
    (scope : Validator) :
    shape.remarks scope value = [⟨[], .closing ⟨scope, shape, value⟩⟩] := by
  cases shape <;> cases value <;> first
    | exact absurd rfl hkind
    | rfl

namespace Field

variable {scope : Validator} {members : Members}

/-- Nothing is said about a field whose value is missing or null. -/
theorem remarks_of_absent {field : Field}
    (absent : Members.present? field.name members = none) : field.remarks scope members = [] := by
  cases field with
  | leaf name =>
    rw [name_leaf] at absent
    simp only [remarks, absent]
  | nested name shape =>
    rw [name_nested] at absent
    simp only [remarks, absent]

/-- All that is said about a field is about its place or about one further inside. -/
theorem exists_path_of_mem_remarks (field : Field) :
    ∀ remark ∈ field.remarks scope members, ∃ rest, remark.path = .field field.name :: rest := by
  intro remark h
  cases field with
  | leaf name =>
    simp only [remarks] at h
    split at h
    · cases h
    · obtain ⟨opening, -, rfl⟩ := List.mem_map.mp h
      exact ⟨[], rfl⟩
  | nested name shape =>
    -- What opens the field is at its place, what is said about the value is further inside.
    simp only [remarks] at h
    split at h
    · cases h
    · rcases List.mem_append.mp h with h | h
      · obtain ⟨opening, -, rfl⟩ := List.mem_map.mp h
        exact ⟨[], rfl⟩
      · obtain ⟨inner, -, rfl⟩ := List.mem_map.mp h
        exact ⟨inner.path, rfl⟩

/-- The remarks on fields are those on each field in turn. -/
theorem allRemarks_eq_flatMap (fields : List Field) :
    allRemarks scope members fields =
      fields.flatMap fun field => field.remarks scope members := by
  induction fields with
  | nil => rfl
  | cons field rest ih => rw [allRemarks, ih, List.flatMap_cons]

/-- What is said below the name of a field is said about that field, if no other field has that
name. -/
theorem filter_allRemarks {fields : List Field} {field : Field}
    (nodup : (fields.map Field.name).Nodup) (declared : field ∈ fields) :
    (allRemarks scope members fields).filter (Remark.isWithin [.field field.name]) =
      field.remarks scope members := by
  -- Distinct names are distinct steps, so each field has a step of its own.
  have hsteps : (fields.map fun field => PathStep.field field.name).Nodup := by
    have hinjective : Function.Injective PathStep.field := fun _ _ => PathStep.field.inj
    have hmap := nodup.map hinjective
    rwa [List.map_map] at hmap
  rw [allRemarks_eq_flatMap]
  exact Remark.filter_flatMap (fun field => .field field.name) exists_path_of_mem_remarks hsteps
    declared

end Field

namespace Position

/-- What is said below the name of a field of an object. -/
theorem filter_remarks_field {scope : Validator} {fields : List Field} {members : Members}
    {field : Field} (nodup : (fields.map Field.name).Nodup) (declared : field ∈ fields) :
    (Shape.remarks scope (.object members) (.object fields)).filter
        (Remark.isWithin [.field field.name]) =
      field.remarks scope members := by
  unfold Shape.remarks
  rw [List.filter_append, filter_closings, List.append_nil]
  exact Field.filter_allRemarks nodup declared

/-- What is said below an item of an array. -/
theorem filter_remarks_index {scope : Validator} {element : Shape} {items : List Json}
    {index : Nat} {item : Json} (hitem : items[index]? = some item) :
    (Shape.remarks scope (.array items) (.arrayOf element)).filter
        (Remark.isWithin [.index index]) =
      (element.remarks scope item).map (Remark.below [.index index]) := by
  -- The items have different positions, so each has a step of its own.
  have hsteps : (items.zipIdx.map fun part => PathStep.index part.2).Nodup := by
    have hinjective : Function.Injective PathStep.index := fun _ _ => PathStep.index.inj
    have hmap := (List.nodup_zipIdx_map_snd items).map hinjective
    rwa [List.map_map] at hmap
  have hinside (part : Json × Nat) :
      ∀ remark ∈ (element.remarks scope part.1).map (Remark.below [.index part.2]),
        ∃ rest, remark.path = .index part.2 :: rest := by
    intro remark h
    obtain ⟨inner, -, rfl⟩ := List.mem_map.mp h
    exact ⟨inner.path, rfl⟩
  have hpart : (item, index) ∈ items.zipIdx := List.mk_mem_zipIdx_iff_getElem?.mpr hitem
  show ((items.zipIdx.flatMap fun part =>
    (element.remarks scope part.1).map (Remark.below [.index part.2])) ++ closings _).filter _ = _
  rw [List.filter_append, filter_closings, List.append_nil]
  exact Remark.filter_flatMap (fun part => .index part.2) hinside hsteps hpart

/-- The remarks on the value of a position. -/
def remarks (position : Position) : List Remark :=
  position.shape.remarks position.scope position.value

/-- One step inside, what is said there follows the remarks that open the place. -/
theorem Inside.filter_remarks {position child : Position} {step : PathStep}
    (inside : Inside step position child) (distinct : position.shape.DistinctNames) :
    ∃ openings : List Opening,
      position.remarks.filter (Remark.isWithin [step]) =
        (openings.map (Remark.opens []) ++ child.remarks).map (Remark.below [step]) := by
  cases inside with
  | @field scope fields members name shape value declared present =>
    -- Only a field has something said about it before its value is looked at, an item has not.
    refine ⟨(Field.nested name shape).openings scope, ?_⟩
    rw [List.map_append, List.map_map]
    refine (filter_remarks_field distinct.1 declared).trans ?_
    simp only [Field.remarks, present]
    rfl
  | index item => exact ⟨[], filter_remarks_index item⟩

/-- At or below the end of a path the log says what it says about the position there, behind the
remarks that open the place. -/
theorem filter_remarks {root position : Position} {path : FieldPath}
    (hpath : root.at? path = some position) (distinct : root.shape.DistinctNames) :
    ∃ opened : List Remark,
      (∀ remark ∈ opened, remark.path = path ∧ remark.topic.isOpening = true) ∧
      root.remarks.filter (Remark.isWithin path) =
        opened ++ position.remarks.map (Remark.below path) := by
  -- Along the path, step by step from the root.
  induction path generalizing root with
  | nil =>
    cases hpath
    refine ⟨[], nofun, ?_⟩
    rw [Remark.map_below_nil]
    exact List.filter_eq_self.mpr fun remark _ => remark.isWithin_nil
  | cons step rest ih =>
    obtain ⟨child, hchild, hrest⟩ := Option.bind_eq_some_iff.mp hpath
    have inside := Inside.of_child? hchild
    obtain ⟨openings, hopenings⟩ := inside.filter_remarks distinct
    obtain ⟨opened, hopened, hbelow⟩ := ih hrest (inside.distinctNames distinct)
    refine ⟨((openings.map (Remark.opens [])).filter (Remark.isWithin rest) ++ opened).map
      (Remark.below [step]), fun remark h => ?_, ?_⟩
    · obtain ⟨inner, hinner, rfl⟩ := List.mem_map.mp h
      rcases List.mem_append.mp hinner with hinner | hinner
      · -- What opens the place one step inside is below the whole path only if that is its end.
        obtain ⟨hinner, hwithin⟩ := List.mem_filter.mp hinner
        obtain ⟨opening, -, rfl⟩ := List.mem_map.mp hinner
        have hrest : rest = [] := List.prefix_nil.mp (List.isPrefixOf_iff_prefix.mp hwithin)
        exact ⟨by rw [hrest]; rfl, rfl⟩
      · obtain ⟨hpath, hopening⟩ := hopened inner hinner
        exact ⟨congrArg ([step] ++ ·) hpath, hopening⟩
    · show root.remarks.filter (Remark.isWithin ([step] ++ rest)) = _
      rw [← Remark.filter_filter_append, hopenings, Remark.filter_below, List.filter_append,
        hbelow, ← List.append_assoc, List.map_append, Remark.map_below_below]
      rfl

/-- A position is closed last, and all that is said before is about its inside. -/
theorem exists_remarks_eq (position : Position) :
    ∃ front, position.remarks = front ++ position.closings ∧
      ∀ remark ∈ front, remark.path ≠ [] := by
  obtain ⟨scope, shape, value⟩ := position
  by_cases hkind : value.kind = shape.kind
  · cases shape with
    | object fields =>
      obtain ⟨members, rfl⟩ := Json.exists_of_kind_object hkind
      refine ⟨Field.allRemarks scope members fields, rfl, fun remark h => ?_⟩
      rw [Field.allRemarks_eq_flatMap] at h
      obtain ⟨field, -, h⟩ := List.mem_flatMap.mp h
      obtain ⟨rest, hpath⟩ := field.exists_path_of_mem_remarks remark h
      rw [hpath]
      exact List.cons_ne_nil _ _
    | emptyArray => exact ⟨[], rfl, nofun⟩
    | arrayOf element =>
      obtain ⟨items, rfl⟩ := Json.exists_of_kind_array hkind
      refine ⟨_, rfl, fun remark h => ?_⟩
      obtain ⟨part, -, h⟩ := List.mem_flatMap.mp h
      obtain ⟨inner, -, rfl⟩ := List.mem_map.mp h
      exact List.cons_ne_nil _ _
  · -- There is no inside, and a value of another kind is never left in silence.
    refine ⟨[], ?_, nofun⟩
    unfold remarks
    rw [Shape.remarks_of_kind_ne hkind]
    unfold closings
    rw [if_neg]
    · rfl
    · cases shape <;> cases value <;> first
        | exact absurd rfl hkind
        | exact Bool.false_ne_true

/-! ### The places that are remarked on -/

/-- A walk that starts at a position comes to the place of a remark and makes it there. -/
inductive Makes (root : Position) : Remark → Prop where
  | closing {path : FieldPath} {position : Position} (arrived : root.at? path = some position) :
    Makes root ⟨path, .closing position⟩
  | opening {path : FieldPath} {scope : Validator} {fields : List Field} {members : Members}
    {field : Field} {opening : Opening}
    (arrived : root.at? path = some ⟨scope, .object fields, .object members⟩)
    (declared : field ∈ fields) (present : (Members.present? field.name members).isSome = true)
    (opens : opening ∈ field.openings scope) :
    Makes root ⟨path ++ [.field field.name], .opening opening⟩

/-- Steps inside lead to the place of a remark, whatever names repeat, and a walk makes it
there. -/
inductive Voices (root : Position) : Remark → Prop where
  | closing {path : FieldPath} {position : Position} (arrived : root.LeadsTo path position) :
    Voices root ⟨path, .closing position⟩
  | opening {path : FieldPath} {scope : Validator} {fields : List Field} {members : Members}
    {field : Field} {opening : Opening}
    (arrived : root.LeadsTo path ⟨scope, .object fields, .object members⟩)
    (declared : field ∈ fields) (present : (Members.present? field.name members).isSome = true)
    (opens : opening ∈ field.openings scope) :
    Voices root ⟨path ++ [.field field.name], .opening opening⟩

namespace Voices

variable {root child : Position} {remark : Remark}

/-- What is said one step inside is said. -/
theorem below {step : PathStep} (voices : child.Voices remark) (inside : Inside step root child) :
    root.Voices (remark.below [step]) := by
  cases voices with
  | closing arrived => exact .closing (.inside inside arrived)
  | opening arrived declared present opens =>
    exact .opening (.inside inside arrived) declared present opens

/-- Where no names repeat, remarks are made where a path is followed to its end. -/
theorem makes (voices : root.Voices remark) (distinct : root.shape.DistinctNames) :
    root.Makes remark := by
  cases voices with
  | closing arrived => exact .closing (arrived.at?_eq distinct)
  | opening arrived declared present opens =>
    exact .opening (arrived.at?_eq distinct) declared present opens

end Voices

end Position

mutual

/-- Every remark on a value is said where a walk comes to its place. -/
theorem Shape.voices_of_mem_remarks (shape : Shape) {scope : Validator} {value : Json}
    {remark : Remark} (h : remark ∈ shape.remarks scope value) :
    Position.Voices ⟨scope, shape, value⟩ remark := by
  by_cases hkind : value.kind = shape.kind
  · match shape with
    | .object fields =>
      obtain ⟨members, rfl⟩ := Json.exists_of_kind_object hkind
      rcases List.mem_append.mp h with h | h
      · exact Field.voices_of_mem_allRemarks fields (List.Subset.refl fields) h
      · rw [Position.mem_closings h]
        exact .closing (.here _)
    | .emptyArray =>
      rw [Position.mem_closings h]
      exact .closing (.here _)
    | .arrayOf element =>
      obtain ⟨items, rfl⟩ := Json.exists_of_kind_array hkind
      rcases List.mem_append.mp h with h | h
      · obtain ⟨⟨item, index⟩, hpart, h⟩ := List.mem_flatMap.mp h
        obtain ⟨inner, hinner, rfl⟩ := List.mem_map.mp h
        have hitem := List.mk_mem_zipIdx_iff_getElem?.mp hpart
        exact (element.voices_of_mem_remarks hinner).below (.index hitem)
      · rw [Position.mem_closings h]
        exact .closing (.here _)
  · rw [Shape.remarks_of_kind_ne hkind, List.mem_singleton] at h
    rw [h]
    exact .closing (.here _)

/-- So is every remark on a field. -/
theorem Field.voices_of_mem_remarks (field : Field) {scope : Validator} {fields : List Field}
    {members : Members} (declared : field ∈ fields) {remark : Remark}
    (h : remark ∈ field.remarks scope members) :
    Position.Voices ⟨scope, .object fields, .object members⟩ remark := by
  cases hpresent : Members.present? field.name members with
  | none =>
    rw [Field.remarks_of_absent hpresent] at h
    cases h
  | some value =>
    -- What opens the field is said at the object, in the first step of the walk.
    have hopens {opening : Opening} (opens : opening ∈ field.openings scope) :
        Position.Voices ⟨scope, .object fields, .object members⟩
          (.opens [.field field.name] opening) := by
      have present := Option.isSome_iff_exists.mpr ⟨value, hpresent⟩
      show Position.Voices _ ⟨[] ++ [.field field.name], .opening opening⟩
      exact .opening (.here _) declared present opens
    match field with
    | .leaf name =>
      rw [Field.name_leaf] at hpresent hopens
      simp only [Field.remarks, hpresent] at h
      obtain ⟨opening, opens, rfl⟩ := List.mem_map.mp h
      exact hopens opens
    | .nested name shape =>
      rw [Field.name_nested] at hpresent hopens
      simp only [Field.remarks, hpresent] at h
      rcases List.mem_append.mp h with h | h
      · obtain ⟨opening, opens, rfl⟩ := List.mem_map.mp h
        exact hopens opens
      · obtain ⟨inner, hinner, rfl⟩ := List.mem_map.mp h
        exact (shape.voices_of_mem_remarks hinner).below (.field declared hpresent)

/-- Every remark on fields is said where a walk comes to its place. -/
theorem Field.voices_of_mem_allRemarks (rest : List Field) {scope : Validator}
    {fields : List Field} {members : Members} (declared : rest ⊆ fields) {remark : Remark}
    (h : remark ∈ Field.allRemarks scope members rest) :
    Position.Voices ⟨scope, .object fields, .object members⟩ remark := by
  match rest with
  | [] => cases h
  | field :: others =>
    obtain ⟨hfield, hothers⟩ := List.cons_subset.mp declared
    rcases List.mem_append.mp h with h | h
    · exact field.voices_of_mem_remarks hfield h
    · exact Field.voices_of_mem_allRemarks others hothers h

end

/-- Every remark on a value is made where a walk comes to its place. -/
theorem Shape.makes_of_mem_remarks (shape : Shape) {scope : Validator} {value : Json}
    (distinct : shape.DistinctNames) {remark : Remark} (h : remark ∈ shape.remarks scope value) :
    Position.Makes ⟨scope, shape, value⟩ remark :=
  (shape.voices_of_mem_remarks h).makes distinct

end DocShape
