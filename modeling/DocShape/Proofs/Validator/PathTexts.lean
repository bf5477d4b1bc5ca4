import DocShape.Proofs.Shape.RoundTrip
import DocShape.Proofs.Validator.Forms
import DocShape.Proofs.Validator.Traces

/-!
# `DocShape.Proofs.Validator.PathTexts`: which places a path text can mean

The text of a path writes names as they are, and a dot in a name looks like the dot before a name.
So the text is that of the path in which every name is split at its dots (`FieldPath.dotted`), and
it says no more than this. The names in a shape text hold no bracket, so a split path can be read
back from its text letter by letter (`FieldPath.eq_of_letters_eq`).

`Position.Visits` says where a validation can come to. Errors and events name no other place
(`Validator.texts_of_visited`).
-/

set_option autoImplicit false

namespace DocShape

/-! ### Dots in names -/

/-- The step with its name split at dots, as if each part were a name. -/
def PathStep.dotted : PathStep → FieldPath
  | field name => (name.toList.splitOn '.').map fun letters => field (String.ofList letters)
  | index position => [index position]

/-- The path with all names split at dots. -/
def FieldPath.dotted (path : FieldPath) : FieldPath :=
  path.flatMap PathStep.dotted

/-- A step whose name, if it has one, can be told from what follows it in a text. -/
def PathStep.Plain : PathStep → Prop
  | field name => '.' ∉ name.toList ∧ '[' ∉ name.toList
  | index _ => True

/-- No part holds what a list is split at. -/
theorem notMem_of_mem_splitOn {α : Type} [DecidableEq α] {separator : α} {items part : List α}
    (h : part ∈ items.splitOn separator) : separator ∉ part := by
  induction items generalizing part with
  | nil =>
    rw [List.splitOn_nil, List.mem_singleton] at h
    rw [h]
    exact List.not_mem_nil
  | cons item rest ih =>
    rw [List.splitOn_cons_eq_if_modifyHead] at h
    obtain ⟨first, others, hparts⟩ :=
      List.exists_cons_of_ne_nil (List.splitOn_ne_nil separator rest)
    split at h
    · rcases List.mem_cons.mp h with rfl | h
      · exact List.not_mem_nil
      · exact ih h
    · next hne =>
      rw [hparts, List.modifyHead_cons] at h
      rcases List.mem_cons.mp h with rfl | h
      · -- The item goes to the first part of the rest.
        rw [List.mem_cons, not_or]
        exact ⟨fun heq => hne (by simp [heq]), ih (hparts ▸ List.mem_cons_self)⟩
      · exact ih (hparts ▸ List.mem_cons_of_mem _ h)

/-- Parts that each follow a separator make the list behind a separator. -/
theorem flatMap_cons_splitOn {α : Type} [DecidableEq α] (separator : α) (items : List α) :
    (items.splitOn separator).flatMap (List.cons separator) = separator :: items := by
  induction items with
  | nil => rfl
  | cons item rest ih =>
    rw [List.splitOn_cons_eq_if_modifyHead]
    obtain ⟨first, others, hparts⟩ :=
      List.exists_cons_of_ne_nil (List.splitOn_ne_nil separator rest)
    rw [hparts] at ih ⊢
    -- A separator opens a part of its own, any other item goes to the first part of the rest.
    split
    · next heq =>
      rw [List.flatMap_cons, ih, beq_iff_eq.mp heq]
      rfl
    · rw [List.modifyHead_cons, List.flatMap_cons, List.cons_append, List.cons_append]
      rw [List.flatMap_cons, List.cons_append, List.cons.injEq] at ih
      rw [ih.2]

namespace PathStep

/-- A step is written as its parts are. -/
theorem letters_dotted (step : PathStep) : step.dotted.flatMap letters = step.letters := by
  cases step with
  | field name =>
    have hpart : (fun part => letters (field (String.ofList part))) = List.cons '.' := by
      funext part
      show '.' :: (String.ofList part).toList = '.' :: part
      rw [String.toList_ofList]
    show ((name.toList.splitOn '.').map fun part => field (String.ofList part)).flatMap
      letters = _
    rw [List.flatMap_map, hpart]
    exact flatMap_cons_splitOn '.' name.toList
  | index position => exact List.append_nil _

/-- A step whose name holds no dot is its only part. -/
theorem dotted_of_notMem {step : PathStep}
    (h : ∀ name, step = field name → '.' ∉ name.toList) : step.dotted = [step] := by
  cases step with
  | field name =>
    simp only [dotted]
    rw [List.splitOn_eq_singleton (h name rfl), List.map_singleton, String.ofList_toList]
  | index position => rfl

/-- Parts of a name without brackets are plain. -/
theorem plain_of_mem_dotted {step part : PathStep} (hpart : part ∈ step.dotted)
    (h : ∀ name, step = field name → '[' ∉ name.toList) : part.Plain := by
  cases step with
  | field name =>
    obtain ⟨letters, hletters, rfl⟩ := List.mem_map.mp hpart
    show '.' ∉ (String.ofList letters).toList ∧ '[' ∉ (String.ofList letters).toList
    rw [String.toList_ofList]
    refine ⟨notMem_of_mem_splitOn hletters, fun hbracket => ?_⟩
    -- A bracket in a part would be one in the name.
    have hmem : '[' ∈ '.' :: name.toList := by
      rw [← flatMap_cons_splitOn]
      exact List.mem_flatMap.mpr ⟨letters, hletters, List.mem_cons_of_mem _ hbracket⟩
    rcases List.mem_cons.mp hmem with heq | hmem
    · exact absurd heq (by decide)
    · exact h name rfl hmem
  | index position =>
    rw [List.mem_singleton.mp hpart]
    trivial

end PathStep

namespace FieldPath

/-- The text of a path is that of its parts. -/
theorem text_dotted (path : FieldPath) : path.dotted.text = path.text := by
  have hletters : path.dotted.flatMap PathStep.letters = path.flatMap PathStep.letters := by
    unfold dotted
    rw [List.flatMap_assoc]
    simp only [PathStep.letters_dotted]
  unfold text
  rw [hletters]

/-! ### Reading a path back -/

/-- Letters up to the first one of another kind are told by the whole. -/
theorem append_cancel {kind : Char → Bool} {front other rest others : List Char}
    (hfront : ∀ c ∈ front, kind c = true) (hother : ∀ c ∈ other, kind c = true)
    (hrest : ∀ c, rest.head? = some c → kind c = false)
    (hothers : ∀ c, others.head? = some c → kind c = false)
    (h : front ++ rest = other ++ others) : front = other ∧ rest = others := by
  induction front generalizing other with
  | nil =>
    cases other with
    | nil => exact ⟨rfl, h⟩
    | cons c other =>
      -- The rest would start with a letter of the kind.
      have hkind := hrest c (by rw [List.nil_append] at h; rw [h]; rfl)
      rw [hother c List.mem_cons_self] at hkind
      cases hkind
  | cons c front ih =>
    cases other with
    | nil =>
      have hkind := hothers c (by rw [List.nil_append] at h; rw [← h]; rfl)
      rw [hfront c List.mem_cons_self] at hkind
      cases hkind
    | cons d other =>
      obtain ⟨rfl, htail⟩ := List.cons.inj h
      obtain ⟨rfl, hsame⟩ := ih (fun c hc => hfront c (List.mem_cons_of_mem _ hc))
        (fun c hc => hother c (List.mem_cons_of_mem _ hc)) htail
      exact ⟨rfl, hsame⟩

/-- Steps start with a dot or a bracket. -/
theorem head?_flatMap_letters (path : FieldPath) {c : Char}
    (h : (path.flatMap PathStep.letters).head? = some c) : c = '.' ∨ c = '[' := by
  cases path with
  | nil => cases h
  | cons step rest =>
    cases step with
    | field name =>
      cases h
      exact .inl rfl
    | index position =>
      cases h
      exact .inr rfl

/-- The letters of a name are no dot and no bracket. -/
theorem eq_of_field_letters_eq {name other : String} {path others : FieldPath}
    (hname : (PathStep.field name).Plain) (hother : (PathStep.field other).Plain)
    (h : name.toList ++ path.flatMap PathStep.letters =
      other.toList ++ others.flatMap PathStep.letters) :
    name = other ∧ path.flatMap PathStep.letters = others.flatMap PathStep.letters := by
  have hkind {name : String} (hname : (PathStep.field name).Plain) :
      ∀ c ∈ name.toList, decide (c ≠ '.' ∧ c ≠ '[') = true := fun c hc =>
    decide_eq_true ⟨fun heq => hname.1 (heq ▸ hc), fun heq => hname.2 (heq ▸ hc)⟩
  have hstep (path : FieldPath) (c : Char)
      (hc : (path.flatMap PathStep.letters).head? = some c) :
      decide (c ≠ '.' ∧ c ≠ '[') = false := by
    rcases head?_flatMap_letters path hc with rfl | rfl <;> rfl
  obtain ⟨hsame, hrest⟩ :=
    append_cancel (hkind hname) (hkind hother) (hstep path) (hstep others) h
  exact ⟨String.toList_inj.mp hsame, hrest⟩

/-- The letters of a position are digits, and a bracket ends them. -/
theorem eq_of_index_letters_eq {position other : Nat} {path others : List Char}
    (h : (toString position).toList ++ ']' :: path = (toString other).toList ++ ']' :: others) :
    position = other ∧ path = others := by
  have hdigits (number : Nat) : ∀ c ∈ (toString number).toList, c.isDigit = true := by
    intro c hc
    rw [Nat.toString_eq_ofList_toDigits, String.toList_ofList] at hc
    exact Nat.isDigit_of_mem_toDigits (by decide) (by decide) hc
  have hbracket (rest : List Char) (c : Char) (hc : (']' :: rest).head? = some c) :
      c.isDigit = false := by
    cases hc
    rfl
  obtain ⟨hsame, hrest⟩ :=
    append_cancel (hdigits position) (hdigits other) (hbracket path) (hbracket others) h
  -- The same digits read as the same number.
  have hread := congrArg Pointer.position? (String.toList_inj.mp hsame)
  rw [Pointer.position?_toString, Pointer.position?_toString] at hread
  exact ⟨Option.some.inj hread, List.tail_eq_of_cons_eq hrest⟩

/-- Plain steps are read back from their letters. -/
theorem eq_of_letters_eq {path other : FieldPath} (hpath : ∀ step ∈ path, step.Plain)
    (hother : ∀ step ∈ other, step.Plain)
    (h : path.flatMap PathStep.letters = other.flatMap PathStep.letters) : path = other := by
  induction path generalizing other with
  | nil =>
    cases other with
    | nil => rfl
    | cons step rest => cases step <;> cases h
  | cons step rest ih =>
    cases other with
    | nil => cases step <;> cases h
    | cons otherStep others =>
      have hstep := hpath step List.mem_cons_self
      have hotherStep := hother otherStep List.mem_cons_self
      have hrest := ih (fun step hstep => hpath step (List.mem_cons_of_mem _ hstep))
        (fun step hstep => hother step (List.mem_cons_of_mem _ hstep))
      rw [List.flatMap_cons, List.flatMap_cons] at h
      -- The first letter tells a name from a position.
      cases step with
      | field name =>
        cases otherStep with
        | field otherName =>
          obtain ⟨rfl, hsame⟩ := eq_of_field_letters_eq hstep hotherStep (List.cons.inj h).2
          rw [hrest hsame]
        | index position => cases h
      | index position =>
        cases otherStep with
        | field name => cases h
        | index otherPosition =>
          have hletters : (toString position).toList ++ ']' :: rest.flatMap PathStep.letters =
              (toString otherPosition).toList ++ ']' :: others.flatMap PathStep.letters :=
            (List.append_assoc ..).symm.trans ((List.cons.inj h).2.trans (List.append_assoc ..))
          obtain ⟨rfl, hsame⟩ := eq_of_index_letters_eq hletters
          rw [hrest hsame]

/-- Where no name holds a bracket, paths have the same text exactly if they have the same
parts. -/
theorem text_eq_text_iff {path other : FieldPath}
    (hpath : ∀ name, PathStep.field name ∈ path → '[' ∉ name.toList)
    (hother : ∀ name, PathStep.field name ∈ other → '[' ∉ name.toList) :
    path.text = other.text ↔ path.dotted = other.dotted := by
  -- Split at its dots, a path has plain steps only, and its text stays the same.
  have hplain {path : FieldPath} (h : ∀ name, PathStep.field name ∈ path → '[' ∉ name.toList) :
      ∀ part ∈ path.dotted, part.Plain := by
    intro part hpart
    obtain ⟨step, hstep, hpart⟩ := List.mem_flatMap.mp hpart
    exact PathStep.plain_of_mem_dotted hpart fun name heq => h name (heq ▸ hstep)
  constructor
  · intro h
    rw [← text_dotted path, ← text_dotted other] at h
    exact eq_of_letters_eq (hplain hpath) (hplain hother)
      (List.cons.inj (String.ofList_injective h)).2
  · intro h
    rw [← text_dotted path, ← text_dotted other, h]

/-- A path without dots in its names is its own parts. -/
theorem dotted_of_notMem {path : FieldPath}
    (h : ∀ name, PathStep.field name ∈ path → '.' ∉ name.toList) : path.dotted = path := by
  induction path with
  | nil => rfl
  | cons step rest ih =>
    have hstep := PathStep.dotted_of_notMem fun name heq =>
      h name (heq ▸ (List.mem_cons_self : step ∈ step :: rest))
    have hrest := ih fun name hname => h name (List.mem_cons_of_mem _ hname)
    show step.dotted ++ dotted rest = step :: rest
    rw [hstep, hrest]
    rfl

end FieldPath

namespace Position

/-! ### The places that a validation comes to -/

/-- A validation that starts at a position comes to a place: to the position itself, to the fields
of an object, and on to all that is inside. -/
inductive Visits : Position → FieldPath → Prop where
  | here (position : Position) : Visits position []
  | field {scope : Validator} {fields : List Field} {members : Members} {field : Field}
    (declared : field ∈ fields) :
    Visits ⟨scope, .object fields, .object members⟩ [.field field.name]
  | inside {step : PathStep} {position child : Position} {path : FieldPath}
    (inside : Inside step position child) (visits : Visits child path) :
    Visits position (step :: path)

namespace Visits

/-- A place that is visited from the end of a path is visited. -/
theorem of_at? {root position : Position} {path rest : FieldPath}
    (hpath : root.at? path = some position) (visits : position.Visits rest) :
    root.Visits (path ++ rest) := by
  induction path generalizing root with
  | nil =>
    cases hpath
    exact visits
  | cons step others ih =>
    obtain ⟨child, hchild, hothers⟩ := Option.bind_eq_some_iff.mp hpath
    exact .inside (.of_child? hchild) (ih hothers)

/-- The places of remarks are visited. -/
theorem of_makes {root : Position} {remark : Remark} (makes : root.Makes remark) :
    root.Visits remark.path := by
  cases makes with
  | @closing path position arrived =>
    have hvisits := of_at? arrived (here position)
    rwa [List.append_nil] at hvisits
  | opening arrived declared _ _ => exact of_at? arrived (field declared)

/-- The names on the way to a place are names of the shape. -/
theorem properName {root : Position} {path : FieldPath} (visits : root.Visits path)
    (proper : root.shape.ProperNames) {name : String} (hname : .field name ∈ path) :
    ProperName name := by
  -- Along the way. The step into an item has no name.
  induction visits with
  | here => cases hname
  | field declared =>
    cases List.mem_singleton.mp hname
    exact proper.1 _ declared
  | inside inside _ ih =>
    cases inside with
    | field declared _ =>
      rcases List.mem_cons.mp hname with heq | hname
      · cases heq
        exact proper.1 _ declared
      · exact ih (Field.eachInside_iff.mp proper.2 _ _ declared) hname
    | index _ =>
      rcases List.mem_cons.mp hname with heq | hname
      · cases heq
      · exact ih proper hname

/-- No name on the way to a place of a parsed shape holds a bracket. -/
theorem bracket_notMem {root : Position} {path : FieldPath} (visits : root.Visits path)
    (proper : root.shape.ProperNames) (name : String) (hname : .field name ∈ path) :
    '[' ∉ name.toList := by
  intro hbracket
  have hplain := (visits.properName proper hname).plain '[' hbracket
  exact absurd hplain (by decide)

end Visits

end Position

namespace Validator

/-- Two names with a dot between them are written like one name with a dot in it. The two places
of this document have one text. -/
theorem text_eq_of_dotted_name :
    let shape : Shape := .object [.nested "a.b" (.object [.leaf "x"]),
      .nested "a" (.object [.nested "b" (.object [.leaf "x"])])]
    let document : Json := .object [("a", .object [("b", .object [("x", .nat 1)])]),
      ("a.b", .object [("x", .nat 1)])]
    let root : Position := ⟨default, shape, document⟩
    let path : FieldPath := [.field "a.b"]
    let other : FieldPath := [.field "a", .field "b"]
    Shape.parse "{a.b{x},a{b{x}}}" 4 = .ok shape ∧
      root.Visits path ∧ root.Visits other ∧ path ≠ other ∧
      path.text = "$.a.b" ∧ other.text = "$.a.b" := by
  intro shape document root path other
  have hpath : root.at? path = some ⟨default, .object [.leaf "x"], .object [("x", .nat 1)]⟩ := by
    rfl
  have hother :
      root.at? other = some ⟨default, .object [.leaf "x"], .object [("x", .nat 1)]⟩ := by rfl
  exact ⟨by rfl, .of_at? hpath (.here _), .of_at? hother (.here _), by decide, by decide,
    by decide⟩

/-- Two places that a validation comes to have the same text exactly if their paths are the same
once names are split at dots. So without dots in names different places have different texts.
Every place that an error or an event names is one that the validation comes to. -/
theorem texts_of_visited {source : String} {limit : Nat} {shape : Shape}
    (parsed : Shape.parse source limit = .ok shape) (validator : Validator) (document : Json) :
    let root : Position := ⟨validator, shape, document⟩
    (∀ path other : FieldPath, root.Visits path → root.Visits other →
      (path.text = other.text ↔ path.dotted = other.dotted) ∧
      ((∀ name, PathStep.field name ∈ path ++ other → '.' ∉ name.toList) →
        path ≠ other → path.text ≠ other.text)) ∧
    ∀ store,
      (∀ error, (validator.validateShape shape document).answer store = .error error →
        ∃ path length, root.Visits path ∧
          error = .shapeNotSpecified (FieldPath.text path) length) ∧
      ∀ event ∈ ((Session.withEvents (validator.validateShape shape document)).answer store).2,
        ∀ path, event.path? = some path → root.Visits path := by
  intro root
  have wellFormed := (Shape.wellFormed_of_parse parsed).1
  refine ⟨fun path other visited otherVisited => ?_, fun store => ?_⟩
  · have htext := FieldPath.text_eq_text_iff (visited.bracket_notMem wellFormed.proper)
      (otherVisited.bracket_notMem wellFormed.proper)
    refine ⟨htext, fun hdots hne heq => hne ?_⟩
    have hdotted := htext.mp heq
    rwa [FieldPath.dotted_of_notMem fun name hname => hdots name (List.mem_append_left _ hname),
      FieldPath.dotted_of_notMem fun name hname => hdots name (List.mem_append_right _ hname)]
      at hdotted
  · -- The events tell remarks on the document, and every remark is about a place that is visited.
    obtain ⟨told, events, htold, tells, hlog⟩ := validator.exists_events shape document store
    have hvisits : ∀ remark ∈ told, root.Visits remark.path := fun remark hremark =>
      .of_makes (shape.makes_of_mem_remarks wellFormed.distinct (htold.subset hremark))
    have hevents : ∀ event ∈ events, ∀ path, event.path? = some path → root.Visits path := by
      intro event hevent path hplace
      obtain ⟨remark, hremark, tells⟩ := exists_mem_of_forall₂ tells hevent
      exact tells.path_eq hplace ▸ hvisits remark hremark
    cases hanswer : (validator.validateShape shape document).answer store with
    | ok outcome =>
      rw [hanswer] at hlog
      refine ⟨nofun, fun event hevent path hplace => ?_⟩
      rw [hlog.2] at hevent
      rcases List.mem_append.mp hevent with hevent | hevent
      · exact hevents event hevent path hplace
      · -- The last event is about no place.
        rw [List.mem_singleton.mp hevent] at hplace
        cases hplace
    | error error =>
      rw [hanswer] at hlog
      obtain ⟨⟨path, scope, items, ⟨front, rfl⟩, hnamed⟩, hlog⟩ := hlog
      rw [hlog]
      refine ⟨fun found hfound => ⟨path, items.length, ?_, ?_⟩, hevents⟩
      · exact hvisits _ (List.mem_append_right front List.mem_cons_self)
      · cases hfound
        exact hnamed

/-- A dot in the name of the array whose items are the error, and items of another array beside
it. -/
theorem texts_of_visited_toys :
    let shape : Shape :=
      .object [.nested "pets" (.arrayOf (.object [.leaf "name"])),
        .nested "pets.toys" .emptyArray]
    let document : Json := .object [("pets", .array [.object [("name", .string "lace")]]),
      ("pets.toys", .array [.string "ball"])]
    let root : Position := ⟨default, shape, document⟩
    let validator : Validator := default
    Shape.parse "{pets[{name}],pets.toys[]}" 4 = .ok shape ∧
      (validator.validateShape shape document).answer {} =
        .error (.shapeNotSpecified "$.pets.toys" 1) ∧
      (∀ path other : FieldPath, root.Visits path → root.Visits other →
        (path.text = other.text ↔ path.dotted = other.dotted) ∧
        ((∀ name, PathStep.field name ∈ path ++ other → '.' ∉ name.toList) →
          path ≠ other → path.text ≠ other.text)) ∧
      ∀ store,
        (∀ error, (validator.validateShape shape document).answer store = .error error →
          ∃ path length, root.Visits path ∧
            error = .shapeNotSpecified (FieldPath.text path) length) ∧
        ∀ event ∈ ((Session.withEvents (validator.validateShape shape document)).answer store).2,
          ∀ path, event.path? = some path → root.Visits path := by
  intro shape document root validator
  have parsed : Shape.parse "{pets[{name}],pets.toys[]}" 4 = .ok shape := by rfl
  exact ⟨parsed, by rfl, texts_of_visited parsed validator document⟩

end Validator

end DocShape
