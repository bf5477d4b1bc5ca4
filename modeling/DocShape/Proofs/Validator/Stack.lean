import DocShape.Proofs.Validator.PathTexts

/-!
# `DocShape.Proofs.Validator.Stack`: the path of a walk is a stack

A walk keeps the path to the value at work on a stack: it pushes a step in front of each field and
item and pops it behind. `Shape.track` does the walk of `Shape.evaluate` and writes down the path
after each part, so after every push and every pop. Forgetting what was written down gives back
the walk (`Shape.tracks`), and so the paths that are written down are all that the stack ever
holds.

`Evaluation.Tracks` carries the discipline of the stack through the parts of a walk: all paths go
on from the one at the start, the steps behind it lead to places that are visited, and a part that
gives a result leaves the path as it was. `Position.stack_kept` has what this comes to, for the
events of the log and for the error as well.
-/

set_option autoImplicit false

namespace DocShape

/-! ### Walks that write down their paths -/

/-- A walk and the paths that its stack held so far, oldest first. -/
structure Tracked where
  walk : Walk
  paths : List FieldPath

/-- A part of a tracked walk. -/
abbrev Tracking := EStateM ValidateError Tracked

namespace Tracked

/-- The tracked walk one step further inside. -/
def enter (tracked : Tracked) (step : PathStep) : Tracked :=
  ⟨tracked.walk.enter step, tracked.paths ++ [tracked.walk.path ++ [step]]⟩

/-- The tracked walk one step back. -/
def leave (tracked : Tracked) : Tracked :=
  ⟨tracked.walk.leave, tracked.paths ++ [tracked.walk.path.dropLast]⟩

end Tracked

namespace Tracking

variable {α : Type}

/-- What a tracked part ends with, without the paths. -/
def forget : EStateM.Result ValidateError Tracked α → EStateM.Result ValidateError Walk α
  | .ok result tracked => .ok result tracked.walk
  | .error error tracked => .error error tracked.walk

/-- The walk and the paths that a tracked part ends with. -/
def last : EStateM.Result ValidateError Tracked α → Tracked
  | .ok _ tracked => tracked
  | .error _ tracked => tracked

/-- Does a part of a walk and writes down the path behind it. -/
def part (act : Evaluation α) : Tracking α := fun tracked =>
  match act.run tracked.walk with
  | .ok result walk => .ok result ⟨walk, tracked.paths ++ [walk.path]⟩
  | .error error walk => .error error ⟨walk, tracked.paths ++ [walk.path]⟩

/-- Does something one step further inside. The path is written down behind the push and behind
the pop. -/
def inside (step : PathStep) (act : Tracking α) : Tracking α := do
  part (modify fun walk => { walk with path := walk.path ++ [step] })
  let result ← act
  part (modify fun walk => { walk with path := walk.path.dropLast })
  return result

/-- One step inside, a step is pushed in front and popped behind, and both are written down. -/
theorem run_inside (step : PathStep) (act : Tracking α) (tracked : Tracked) :
    (inside step act).run tracked =
      match act.run (tracked.enter step) with
      | .ok result after => .ok result after.leave
      | .error error after => .error error after := by
  have hpush : (part (modify fun walk => { walk with path := walk.path ++ [step] })).run tracked =
      .ok () (tracked.enter step) := rfl
  unfold inside
  rw [EStateM.run_bind, hpush]
  -- Behind an error nothing is popped any more.
  simp only [EStateM.run_bind]
  cases act.run (tracked.enter step) <;> rfl

/-- Tracks items in order, each one step inside. -/
def eachItem (act : Json → Tracking Outcome) (position : Nat) :
    List Json → Tracking (List Outcome)
  | [] => return []
  | item :: rest => do
    let outcome ← inside (.index position) (act item)
    let outcomes ← eachItem act (position + 1) rest
    return outcome :: outcomes

end Tracking

open Tracking

mutual

/-- Evaluates a value along a shape and writes down the paths. -/
def Shape.track (scope : Validator) (value : Json) : Shape → Tracking Outcome
  | .object fields =>
    match value with
    | .object members => do
      let draft ← Field.trackAll scope members {} fields
      part (Evaluation.log fun path =>
        .evaluatedObject path draft.errors.length draft.valid.length)
      return draft.outcome
    | _ => part (Evaluation.refuse scope.catalog .expectedObject)
  | .emptyArray =>
    match value with
    | .array [] => return .passed (.array [])
    | .array items => part (Evaluation.giveUp items.length)
    | _ => part (Evaluation.refuse scope.catalog .expectedArray)
  | .arrayOf element =>
    match value with
    | .array [] => return .passed (.array [])
    | .array items => do
      let outcomes ← eachItem (fun item => element.track scope item) 0 items
      let outcome := Outcome.ofItems outcomes
      part (Evaluation.log fun path => .evaluatedArray path items.length outcome.errors.isSome)
      return outcome
    | _ => part (Evaluation.refuse scope.catalog .expectedArray)

/-- Evaluates one field and writes down the paths. -/
def Field.track (scope : Validator) (members : Members) (draft : Draft) :
    Field → Tracking Draft
  | .leaf name =>
    inside (.field name) do
      match Members.present? name members with
      | none => return draft.fail name (← part (Evaluation.require scope.catalog))
      | some value => part (Evaluation.leaf scope name value draft)
  | .nested name shape =>
    inside (.field name) do
      match Members.present? name members with
      | none => return draft.fail name (← part (Evaluation.require scope.catalog))
      | some value =>
        let inner ← part (Evaluation.delegate scope name)
        return draft.splice name (← shape.track inner value)

/-- Evaluates fields in order and writes down the paths. -/
def Field.trackAll (scope : Validator) (members : Members) (draft : Draft) :
    List Field → Tracking Draft
  | [] => return draft
  | field :: rest => do
    let draft ← field.track scope members draft
    Field.trackAll scope members draft rest

end

/-! ### The discipline of one part -/

namespace Evaluation

variable {α β : Type}

/-- What a tracked part does to the stack: the steps behind the path at its start are `places`, a
result leaves the path as it was, and an error names the path where it leaves the stack, with a
number that fits the place. -/
inductive Stays (places : FieldPath → Prop) (stops : FieldPath → Nat → Prop) (tracked : Tracked) :
    EStateM.Result ValidateError Tracked α → Prop where
  | ok {result : α} {after : Tracked} {added : List FieldPath}
    (paths : after.paths = tracked.paths ++ added)
    (behind : ∀ path ∈ added, ∃ rest, path = tracked.walk.path ++ rest ∧ places rest)
    (back : after.walk.path = tracked.walk.path) : Stays places stops tracked (.ok result after)
  | error {after : Tracked} {added : List FieldPath} {rest : FieldPath} {length : Nat}
    (paths : after.paths = tracked.paths ++ added)
    (behind : ∀ path ∈ added, ∃ rest, path = tracked.walk.path ++ rest ∧ places rest)
    (stopped : after.walk.path = tracked.walk.path ++ rest) (stop : stops rest length) :
    Stays places stops tracked
      (.error (.shapeNotSpecified (FieldPath.text after.walk.path) length) after)

/-- A tracked part does a part of a walk, and keeps the discipline of the stack from every
start. -/
structure Tracks (places : FieldPath → Prop) (stops : FieldPath → Nat → Prop)
    (tracking : Tracking α) (act : Evaluation α) : Prop where
  forgets : ∀ tracked, forget (tracking.run tracked) = act.run tracked.walk
  stays : ∀ tracked, Stays places stops tracked (tracking.run tracked)

namespace Tracks

variable {places : FieldPath → Prop} {stops : FieldPath → Nat → Prop}

/-- To return a value leaves the stack alone. -/
theorem pure (value : α) : Tracks places stops (Pure.pure value) (Pure.pure value) where
  forgets _ := rfl
  stays _ := .ok (List.append_nil _).symm nofun rfl

/-- A part that gives a result and does not move. -/
theorem part {act : Evaluation α} (here : places [])
    (h : ∀ walk, ∃ result after, act.run walk = .ok result after ∧ after.path = walk.path) :
    Tracks places stops (Tracking.part act) act := by
  refine ⟨fun tracked => ?_, fun tracked => ?_⟩ <;>
    obtain ⟨result, after, hrun, hpath⟩ := h tracked.walk
  · show forget (Tracking.part act tracked) = act.run tracked.walk
    unfold Tracking.part
    rw [hrun]
    rfl
  · show Stays places stops tracked (Tracking.part act tracked)
    unfold Tracking.part
    rw [hrun]
    -- The one path that is written down is the one the part began with.
    refine .ok rfl (fun path h => ⟨[], ?_, here⟩) hpath
    rw [List.mem_singleton.mp h, hpath, List.append_nil]

/-- Items that the shape says nothing about end the walk where it is. -/
theorem giveUp {length : Nat} (here : places []) (stop : stops [] length) :
    Tracks places stops (Tracking.part (Evaluation.giveUp length))
      (Evaluation.giveUp length) where
  forgets _ := rfl
  stays tracked := by
    let ended : Tracked :=
      ⟨tracked.walk.write [.event (.shapeNotSpecified tracked.walk.path length)],
        tracked.paths ++ [tracked.walk.path]⟩
    show Stays places stops tracked
      (.error (.shapeNotSpecified (FieldPath.text ended.walk.path) length) ended)
    refine .error rfl (fun path h => ⟨[], ?_, here⟩) (List.append_nil _).symm stop
    rw [List.mem_singleton.mp h, List.append_nil]

/-- The second of two parts in a row starts with the path that the first started with. -/
theorem bind {first : Tracking α} {next : α → Tracking β} {act : Evaluation α}
    {nextAct : α → Evaluation β} (hfirst : Tracks places stops first act)
    (hnext : ∀ middle, Gives act middle → Tracks places stops (next middle) (nextAct middle)) :
    Tracks places stops (first >>= next) (act >>= nextAct) := by
  refine ⟨fun tracked => ?_, fun tracked => ?_⟩
  · have hforgets := hfirst.forgets tracked
    rw [EStateM.run_bind, EStateM.run_bind, ← hforgets]
    cases hrun : first.run tracked with
    | error error after => rfl
    | ok middle between =>
      rw [hrun] at hforgets
      exact (hnext middle ⟨_, _, hforgets.symm⟩).forgets between
  · have hforgets := hfirst.forgets tracked
    have hstays := hfirst.stays tracked
    rw [EStateM.run_bind]
    generalize first.run tracked = ended at hforgets hstays ⊢
    cases hstays with
    | error paths behind stopped stop => exact .error paths behind stopped stop
    | @ok middle between added paths behind back =>
      have hnextStays := (hnext middle ⟨_, _, hforgets.symm⟩).stays between
      show Stays places stops tracked ((next middle).run between)
      generalize (next middle).run between = nextEnded at hnextStays ⊢
      -- The paths of the second part come behind those of the first.
      have happend {later : List FieldPath} {after : Tracked}
          (laterPaths : after.paths = between.paths ++ later) :
          after.paths = tracked.paths ++ (added ++ later) := by
        rw [laterPaths, paths, List.append_assoc]
      cases hnextStays with
      | ok laterPaths laterBehind laterBack =>
        rw [back] at laterBehind laterBack
        exact .ok (happend laterPaths) (List.forall_mem_append.mpr ⟨behind, laterBehind⟩)
          laterBack
      | error laterPaths laterBehind stopped stop =>
        rw [back] at laterBehind stopped
        exact .error (happend laterPaths) (List.forall_mem_append.mpr ⟨behind, laterBehind⟩)
          stopped stop

/-- Making something of a result leaves the stack alone. -/
theorem bind_pure {first : Tracking α} {act : Evaluation α}
    (hfirst : Tracks places stops first act) (make : α → β) :
    Tracks places stops (first >>= fun middle => Pure.pure (make middle))
      (act >>= fun middle => Pure.pure (make middle)) :=
  hfirst.bind fun middle _ => pure (make middle)

/-- One step further inside, the step is pushed in front and popped behind. An error leaves it. -/
theorem inside {others : FieldPath → Prop} {otherStops : FieldPath → Nat → Prop}
    {tracking : Tracking α} {act : Evaluation α} {step : PathStep}
    (h : Tracks places stops tracking act) (start : places []) (here : others [])
    (hplaces : ∀ rest, places rest → others (step :: rest))
    (hstops : ∀ rest length, stops rest length → otherStops (step :: rest) length) :
    Tracks others otherStops (Tracking.inside step tracking) (Evaluation.inside step act) := by
  refine ⟨fun tracked => ?_, fun tracked => ?_⟩
  · have hforgets : forget (tracking.run (tracked.enter step)) =
        act.run (tracked.walk.enter step) := h.forgets (tracked.enter step)
    rw [Tracking.run_inside, Evaluation.run_inside, ← hforgets]
    cases tracking.run (tracked.enter step) <;> rfl
  · have hstays := h.stays (tracked.enter step)
    rw [Tracking.run_inside]
    generalize tracking.run (tracked.enter step) = ended at hstays ⊢
    -- All paths inside have the step on them, and so has the one that is written down first.
    have hbehind {added : List FieldPath}
        (behind : ∀ path ∈ added, ∃ rest, path = (tracked.enter step).walk.path ++ rest ∧
          places rest) :
        ∀ path ∈ (tracked.walk.path ++ [step]) :: added,
          ∃ rest, path = tracked.walk.path ++ rest ∧ others rest := by
      refine List.forall_mem_cons.mpr ⟨⟨[step], rfl, hplaces [] start⟩, fun path hpath => ?_⟩
      obtain ⟨rest, heq, hrest⟩ := behind path hpath
      exact ⟨step :: rest, heq.trans (List.append_assoc ..), hplaces rest hrest⟩
    cases hstays with
    | @ok result after added paths behind back =>
      -- What was done inside left the path with the step at its end, and the pop takes that away.
      have hback : after.leave.walk.path = tracked.walk.path := by
        show after.walk.path.dropLast = tracked.walk.path
        rw [back]
        exact List.dropLast_concat
      have hpaths : after.leave.paths =
          tracked.paths ++ ((tracked.walk.path ++ [step]) :: added ++ [tracked.walk.path]) := by
        show after.paths ++ [after.leave.walk.path] = _
        rw [hback, paths]
        simp [Tracked.enter, Walk.enter]
      refine .ok hpaths (List.forall_mem_append.mpr ⟨hbehind behind, fun path hpath => ?_⟩) hback
      exact ⟨[], by rw [List.mem_singleton.mp hpath, List.append_nil], here⟩
    | @error after added rest length paths behind stopped stop =>
      -- Nothing is popped, so the step stays in front of those behind it.
      have hpaths : after.paths = tracked.paths ++ ((tracked.walk.path ++ [step]) :: added) := by
        rw [paths]
        simp [Tracked.enter, Walk.enter]
      exact .error hpaths (hbehind behind) (stopped.trans (List.append_assoc ..))
        (hstops rest length stop)

/-- Items are tracked in order, each with its own index. -/
theorem eachItem {places : Json → FieldPath → Prop} {stops : Json → FieldPath → Nat → Prop}
    {others : FieldPath → Prop} {otherStops : FieldPath → Nat → Prop}
    {tracking : Json → Tracking Outcome} {act : Json → Evaluation Outcome}
    (h : ∀ item, Tracks (places item) (stops item) (tracking item) (act item))
    (start : ∀ item, places item []) (here : others []) {items : List Json} {position : Nat}
    (hplaces : ∀ index item, items[index]? = some item →
      ∀ rest, places item rest → others (.index (position + index) :: rest))
    (hstops : ∀ index item, items[index]? = some item →
      ∀ rest length, stops item rest length →
        otherStops (.index (position + index) :: rest) length) :
    Tracks others otherStops (Tracking.eachItem tracking position items)
      (Evaluation.eachItem act position items) := by
  induction items generalizing position with
  | nil => exact pure []
  | cons item rest ih =>
    have hitem := (h item).inside (start item) here (hplaces 0 item rfl) (hstops 0 item rfl)
    refine hitem.bind fun outcome _ => ?_
    -- The items behind the first one stand one further on.
    have hshift (index : Nat) : position + (index + 1) = position + 1 + index := by omega
    have hrest : Tracks others otherStops (Tracking.eachItem tracking (position + 1) rest)
        (Evaluation.eachItem act (position + 1) rest) :=
      ih (fun index item hindex => hshift index ▸ hplaces (index + 1) item hindex)
        (fun index item hindex => hshift index ▸ hstops (index + 1) item hindex)
    exact hrest.bind_pure (List.cons outcome)

end Tracks

end Evaluation

open Evaluation

/-! ### Whole walks -/

namespace Position

/-- The steps lead to an array of some length with items that its shape says nothing about. -/
def Unspecified (root : Position) (path : FieldPath) (length : Nat) : Prop :=
  ∃ scope items, root.LeadsTo path ⟨scope, .emptyArray, .array items⟩ ∧ items ≠ [] ∧
    items.length = length

/-- Items that a shape says nothing about are so seen from one step outside as well. -/
theorem Unspecified.inside {step : PathStep} {position child : Position} {path : FieldPath}
    {length : Nat} (h : child.Unspecified path length) (inside : Inside step position child) :
    position.Unspecified (step :: path) length := by
  obtain ⟨scope, items, leads, hitems⟩ := h
  exact ⟨scope, items, .inside inside leads, hitems⟩

end Position

/-- A value of the wrong kind is refused where it is. -/
theorem Shape.track_of_kind_ne {shape : Shape} {value : Json} (hkind : value.kind ≠ shape.kind)
    (scope : Validator) :
    shape.track scope value = part (refuse scope.catalog shape.refusal) := by
  cases shape <;> cases value <;> first
    | exact absurd rfl hkind
    | rfl

mutual

/-- The tracked walk of a value along a shape is its walk, and the steps on the stack lead to the
places that it visits. -/
theorem Shape.tracks (shape : Shape) (scope : Validator) (value : Json) :
    Tracks (Position.Visits ⟨scope, shape, value⟩) (Position.Unspecified ⟨scope, shape, value⟩)
      (shape.track scope value) (shape.evaluate scope value) := by
  have here : Position.Visits ⟨scope, shape, value⟩ [] := .here _
  by_cases hkind : value.kind = shape.kind
  · match shape with
    | .object fields =>
      obtain ⟨members, rfl⟩ := Json.exists_of_kind_object hkind
      have hfields := Field.tracks_all fields (List.Subset.refl fields) scope members {}
      refine hfields.bind fun draft _ => ?_
      exact (Tracks.part here fun walk => ⟨(), _, run_log _ walk, rfl⟩).bind_pure fun _ =>
        draft.outcome
    | .emptyArray =>
      obtain ⟨items, rfl⟩ := Json.exists_of_kind_array hkind
      cases items with
      | nil => exact .pure (Outcome.passed (.array []))
      | cons item rest =>
        -- The only place at which a walk can end in an error.
        exact .giveUp here ⟨scope, item :: rest, .here _, List.cons_ne_nil item rest, rfl⟩
    | .arrayOf element =>
      obtain ⟨items, rfl⟩ := Json.exists_of_kind_array hkind
      cases items with
      | nil => exact .pure (Outcome.passed (.array []))
      | cons item rest =>
        have inside {index : Nat} {other : Json} (hindex : (item :: rest)[index]? = some other) :
            Position.Inside (.index (0 + index)) ⟨scope, .arrayOf element, .array (item :: rest)⟩
              ⟨scope, element, other⟩ := by
          rw [Nat.zero_add]
          exact .index hindex
        have hitems := Tracks.eachItem (fun item => element.tracks scope item)
          (fun item => .here _) here
          (fun index other hindex path visits => .inside (inside hindex) visits)
          (fun index other hindex path length stop => stop.inside (inside hindex))
        refine hitems.bind fun outcomes _ => ?_
        exact (Tracks.part here fun walk => ⟨(), _, run_log _ walk, rfl⟩).bind_pure fun _ =>
          Outcome.ofItems outcomes
  · rw [Shape.track_of_kind_ne hkind, Shape.evaluate_of_kind_ne hkind]
    exact .part here fun walk => ⟨_, _, run_refuse scope.catalog shape.refusal walk, rfl⟩

/-- So is the tracked walk of a field. -/
theorem Field.tracks (field : Field) {fields : List Field} (declared : field ∈ fields)
    (scope : Validator) (members : Members) (draft : Draft) :
    Tracks (Position.Visits ⟨scope, .object fields, .object members⟩)
      (Position.Unspecified ⟨scope, .object fields, .object members⟩)
      (field.track scope members draft) (field.evaluate scope members draft) := by
  have here : Position.Visits ⟨scope, .object fields, .object members⟩ [] := .here _
  -- The steps of a part that does not move stop at the field.
  have hstill {tracking : Tracking Draft} {act : Evaluation Draft}
      (h : Tracks (· = []) (fun _ _ => False) tracking act) :
      Tracks (Position.Visits ⟨scope, .object fields, .object members⟩)
        (Position.Unspecified ⟨scope, .object fields, .object members⟩)
        (Tracking.inside (.field field.name) tracking)
        (Evaluation.inside (.field field.name) act) :=
    h.inside rfl here (fun _ hrest => hrest ▸ .field declared) nofun
  have hrequire : Tracks (· = []) (fun _ _ => False) (part (require scope.catalog))
      (require scope.catalog) :=
    .part rfl fun walk => ⟨_, _, run_require scope.catalog walk, rfl⟩
  have habsent := hstill (hrequire.bind_pure (draft.fail field.name))
  match field with
  | .leaf name =>
    rw [Field.evaluate_leaf]
    unfold Field.track
    cases Members.present? name members with
    | none => exact habsent
    | some value =>
      exact hstill (.part rfl fun walk => ⟨_, _, run_leaf scope name value draft walk, rfl⟩)
  | .nested name shape =>
    rw [Field.evaluate_nested]
    unfold Field.track
    cases hpresent : Members.present? name members with
    | none => exact habsent
    | some value =>
      have hdelegate : Tracks (Position.Visits ⟨scope.scopeFor name, shape, value⟩)
          (Position.Unspecified ⟨scope.scopeFor name, shape, value⟩)
          (part (delegate scope name)) (delegate scope name) :=
        .part (.here _) fun walk => ⟨_, _, run_delegate scope name walk, rfl⟩
      refine (hdelegate.bind fun inner hinner => ?_).inside (.here _) here
        (fun path visits => .inside (.field declared hpresent) visits)
        (fun path length stop => stop.inside (.field declared hpresent))
      -- Which validator is in charge is known only from what the look-up gives.
      rw [gives_delegate hinner]
      exact (shape.tracks (scope.scopeFor name) value).bind_pure (draft.splice name)

/-- Fields in order are tracked one by one. -/
theorem Field.tracks_all (rest : List Field) {fields : List Field} (declared : rest ⊆ fields)
    (scope : Validator) (members : Members) (draft : Draft) :
    Tracks (Position.Visits ⟨scope, .object fields, .object members⟩)
      (Position.Unspecified ⟨scope, .object fields, .object members⟩)
      (Field.trackAll scope members draft rest) (Field.evaluateAll scope members draft rest) := by
  match rest with
  | [] => exact .pure draft
  | field :: others =>
    obtain ⟨hfield, hothers⟩ := List.cons_subset.mp declared
    refine (field.tracks hfield scope members draft).bind fun middle _ => ?_
    exact Field.tracks_all others hothers scope members middle

end

/-! ### The discipline of the stack -/

/-- No field of a shape is deeper than the deepest of them. -/
theorem Field.depth_le_deepest {fields : List Field} {name : String} {shape : Shape}
    (h : Field.nested name shape ∈ fields) : shape.depth ≤ Field.deepest fields := by
  induction fields with
  | nil => cases h
  | cons first rest ih =>
    have hrest : Field.deepest rest ≤ Field.deepest (first :: rest) := by
      cases first with
      | leaf => exact Nat.le_refl _
      | nested => exact Nat.le_max_right ..
    rcases List.mem_cons.mp h with rfl | h
    · exact Nat.le_max_left ..
    · exact (ih h).trans hrest

namespace Position

/-- One step inside, the shape is less deep. -/
theorem Inside.depth_lt {position child : Position} {step : PathStep}
    (inside : Inside step position child) : child.shape.depth < position.shape.depth := by
  cases inside with
  | field declared _ =>
    have hdepth := Field.depth_le_deepest declared
    simp only [Shape.depth]
    omega
  | index _ =>
    simp only [Shape.depth]
    omega

namespace Visits

variable {root : Position} {path : FieldPath}

/-- A place that is visited has no more steps than there are containers on the longest way
down. -/
theorem length_le_depth (visits : root.Visits path) : path.length ≤ root.shape.depth := by
  -- Along the way: each step inside makes the path longer by one and the shape less deep.
  induction visits with
  | here => exact Nat.zero_le _
  | field => exact Nat.le_add_right ..
  | inside inside _ ih => exact Nat.lt_of_le_of_lt ih inside.depth_lt

/-- A place that is visited from a position further inside is visited. -/
theorem of_leadsTo {position : Position} {rest : FieldPath} (leads : root.LeadsTo path position)
    (visits : position.Visits rest) : root.Visits (path ++ rest) := by
  induction leads with
  | here => exact visits
  | inside inside _ ih => exact .inside inside (ih visits)

/-- The places of remarks are visited, whatever names repeat. -/
theorem of_voices {remark : Remark} (voices : root.Voices remark) : root.Visits remark.path := by
  cases voices with
  | closing arrived =>
    have hvisits := of_leadsTo arrived (here _)
    rwa [List.append_nil] at hvisits
  | opening arrived declared _ _ => exact of_leadsTo arrived (field declared)

end Visits

/-- The tracked walk of the position, with no paths written down so far. -/
def tracked (root : Position) (walk : Walk) : EStateM.Result ValidateError Tracked Outcome :=
  (root.shape.track root.scope root.value).run ⟨walk, []⟩

/-- What the evaluation of a position does with the path of the walk that comes to it. -/
structure StackKept (root : Position) (walk : Walk) : Prop where
  /-- The tracked walk is the evaluation. -/
  forgets : forget (root.tracked walk) = (root.shape.evaluate root.scope root.value).run walk
  /-- A result leaves the path as it was. -/
  restored : ∀ outcome after, root.tracked walk = .ok outcome after → after.walk.path = walk.path
  /-- Whatever is pushed and popped, the path goes on from the one at the start. The steps behind
  that lead to a place that is visited, and are no more than the shape is deep. -/
  behind : ∀ path ∈ (last (root.tracked walk)).paths, ∃ rest,
    path = walk.path ++ rest ∧ root.Visits rest ∧ rest.length ≤ root.shape.depth
  /-- Every event shows the path from the start on to the place that it is about. -/
  logged : ∃ notes, (last (root.tracked walk)).walk.journal = walk.journal ++ notes ∧
    ∀ event ∈ notes.filterMap Note.event?, ∃ remark, root.Voices remark ∧
      remark.Tells walk.path event ∧ event.path? = some (walk.path ++ remark.path) ∧
      remark.path.length ≤ root.shape.depth
  /-- An error shows the path from the start on to the items that it is about, and the stack is
  left there. -/
  failed : ∀ error after, root.tracked walk = .error error after → ∃ rest length,
    root.Unspecified rest length ∧ after.walk.path = walk.path ++ rest ∧
      error = .shapeNotSpecified (FieldPath.text (walk.path ++ rest)) length ∧
      rest.length ≤ root.shape.depth

/-- The journal of a tracked walk goes on with the events of remarks. -/
theorem exists_notes (root : Position) (walk : Walk) :
    ∃ notes, (last (root.tracked walk)).walk.journal = walk.journal ++ notes ∧
      ∀ event ∈ notes.filterMap Note.event?, ∃ remark ∈ root.remarks,
        remark.Tells walk.path event := by
  have hforgets := (root.shape.tracks root.scope root.value).forgets ⟨walk, []⟩
  have hends := root.shape.follows root.scope root.value walk
  unfold tracked
  -- What is known of the evaluation is known of the tracked walk without its paths.
  generalize (root.shape.track root.scope root.value).run ⟨walk, []⟩ = ended at hforgets ⊢
  rw [← hforgets] at hends
  cases ended with
  | ok outcome after =>
    cases hends with
    | ok _ journal tells => exact ⟨_, journal, fun event h => exists_mem_of_forall₂ tells h⟩
  | error error after =>
    cases hends with
    | error _ first journal tells =>
      refine ⟨_, journal, fun event h => ?_⟩
      obtain ⟨remark, hremark, htells⟩ := exists_mem_of_forall₂ tells h
      exact ⟨remark, first.subset hremark, htells⟩

/-- An evaluation keeps the discipline of the stack, whichever validator is at work and whatever
the path was when it began. -/
theorem stack_kept (root : Position) (walk : Walk) : root.StackKept walk := by
  have htracks := root.shape.tracks root.scope root.value
  have hstays : Stays root.Visits root.Unspecified ⟨walk, []⟩ (root.tracked walk) :=
    htracks.stays ⟨walk, []⟩
  obtain ⟨notes, hjournal, htold⟩ := root.exists_notes walk
  -- The path of the result, of all places in between, of the events and of the error.
  refine ⟨htracks.forgets ⟨walk, []⟩, ?_, ?_, ⟨notes, hjournal, fun event hevent => ?_⟩, ?_⟩
  · intro outcome after hrun
    rw [hrun] at hstays
    cases hstays with
    | ok _ _ back => exact back
  · intro path hpath
    have hbehind : ∃ rest, path = walk.path ++ rest ∧ root.Visits rest := by
      generalize root.tracked walk = ended at hstays hpath
      cases hstays with
      | ok paths behind _ => exact behind path (by simpa [last, paths] using hpath)
      | error paths behind _ _ => exact behind path (by simpa [last, paths] using hpath)
    obtain ⟨rest, heq, visits⟩ := hbehind
    exact ⟨rest, heq, visits, visits.length_le_depth⟩
  · obtain ⟨remark, hremark, tells⟩ := htold event hevent
    have voices := root.shape.voices_of_mem_remarks hremark
    exact ⟨remark, voices, tells, tells.path?_eq.1, (Visits.of_voices voices).length_le_depth⟩
  · intro error after hrun
    rw [hrun] at hstays
    cases hstays with
    | @error _ _ rest length _ _ stopped stop =>
      obtain ⟨scope, items, leads, hitems⟩ := stop
      have visits := Visits.of_leadsTo leads (.here _)
      rw [List.append_nil] at visits
      exact ⟨rest, length, ⟨scope, items, leads, hitems⟩, stopped, by rw [← stopped],
        visits.length_le_depth⟩

/-- A push, a look at the schema, a pop and the event of the object. -/
example :
    let root : Position :=
      ⟨default, .object [.nested "tags" .emptyArray], .object [("tags", .array [])]⟩
    let start : FieldPath := [.field "pet"]
    let inner : FieldPath := start ++ [.field "tags"]
    (last (root.tracked ⟨fun _ => 0, [], start⟩)).paths = [inner, inner, start, start] := by
  rfl

end Position

end DocShape
