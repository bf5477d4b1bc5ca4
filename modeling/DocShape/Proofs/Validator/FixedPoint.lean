import DocShape.Proofs.Session.Reading
import DocShape.Proofs.Shape.RoundTrip
import DocShape.Proofs.Validator.Gaps
import DocShape.Proofs.Validator.Outlines

/-!
# `DocShape.Proofs.Validator.FixedPoint`: what passed passes again

Without setters the tree of what passed is a document of its own: validating it once more gives
the same tree and the same errors, up to their messages. On the second way a value that failed is
missing, or null in the slot of an item, and fails there again. So every field adds to the second
outcome the part that it added to the first (`Field.outline_eq_of_present?_eq`), and the rest
follows along the shape (`Shape.settles_of_distinctNames`). The tree has no gaps either, since
nothing of an array passes that its shape says nothing about.

That a text reads as the same shape both times is due to a sound cache. Caches are sound from the
building of a validator on, and calls keep them so (`Validator.CacheSound`).
-/

set_option autoImplicit false

namespace DocShape

/-- What passes of a value along a shape passes again as it is, and has no gaps. -/
def Shape.Settles (shape : Shape) : Prop :=
  ∀ (scope : Validator) (value tree : Json), (shape.outline scope value).valid = some tree →
    shape.outline scope tree = shape.outline scope value ∧ shape.gaps tree = []

namespace Field

variable {scope : Validator} {members others : Members}

/-- An object that holds what passed of a field gives the same part for it. -/
theorem outline_eq_of_present?_eq {field : Field}
    (settles : ∀ name shape, field = .nested name shape → shape.Settles)
    (h : Members.present? field.name others = (field.outline scope members).valid) :
    field.outline scope others = field.outline scope members ∧ field.gaps others = [] := by
  cases hvalid : (field.outline scope members).valid with
  | none =>
    -- The field failed as a whole, so now its value is missing.
    rw [hvalid] at h
    rw [outline_of_absent h, outline_of_valid_eq_none hvalid]
    exact ⟨rfl, gaps_of_absent h⟩
  | some tree =>
    rw [hvalid] at h
    cases field with
    | leaf name =>
      rw [name_leaf] at h
      refine ⟨?_, rfl⟩
      cases hpresent : Members.present? name members with
      | none =>
        simp only [outline, hpresent] at hvalid
        cases hvalid
      | some value =>
        simp only [outline, hpresent, Rule.outline] at hvalid
        split at hvalid
        · cases hvalid
        · -- A leaf that passed holds the value that it was tested with.
          cases hvalid
          simp only [outline, h, hpresent]
    | nested name shape =>
      rw [name_nested] at h
      cases hpresent : Members.present? name members with
      | none =>
        simp only [outline, hpresent] at hvalid
        cases hvalid
      | some value =>
        simp only [outline, hpresent] at hvalid
        obtain ⟨houtline, hgaps⟩ := settles name shape rfl _ value tree hvalid
        simp only [outline, gaps, h, hpresent]
        exact ⟨houtline, by rw [hgaps, List.map_nil]⟩

/-- Fields that give the same parts give the same draft. -/
theorem outlineAll_congr {fields : List Field}
    (h : ∀ field ∈ fields, field.outline scope others = field.outline scope members)
    (draft : Draft) :
    outlineAll scope others draft fields = outlineAll scope members draft fields := by
  induction fields generalizing draft with
  | nil => rfl
  | cons field rest ih =>
    obtain ⟨hfield, hrest⟩ := List.forall_mem_cons.mp h
    rw [outlineAll, outlineAll, hfield]
    exact ih hrest _

/-- Fields without gaps have none together. -/
theorem allGaps_eq_nil {fields : List Field} (h : ∀ field ∈ fields, field.gaps members = []) :
    allGaps members fields = [] := by
  induction fields with
  | nil => rfl
  | cons field rest ih =>
    obtain ⟨hfield, hrest⟩ := List.forall_mem_cons.mp h
    rw [allGaps, hfield, ih hrest, List.append_nil]

end Field

/-- What passes of an item, or the null in its slot, gives the outcome of the item again. -/
theorem Shape.Settles.validTree {element : Shape} (settles : element.Settles) (scope : Validator)
    (item : Json) :
    element.outline scope (element.outline scope item).validTree = element.outline scope item ∧
      element.gaps (element.outline scope item).validTree = [] := by
  unfold Outcome.validTree
  cases hvalid : (element.outline scope item).valid with
  | some tree => exact settles scope item tree hvalid
  | none =>
    have hkind : Json.null.kind ≠ element.kind := element.kind_null_ne
    rw [Shape.outline_of_valid_eq_none hvalid]
    exact ⟨Shape.outline_of_kind_ne hkind scope, Shape.gaps_of_kind_ne hkind⟩

/-- If no object of a shape has two fields of one name, what passes along it passes again. -/
theorem Shape.settles_of_distinctNames (shape : Shape) (distinct : shape.DistinctNames) :
    shape.Settles := by
  induction shape using Shape.induction with
  | object fields ih =>
    intro scope value tree hvalid
    by_cases hkind : value.kind = .object
    · obtain ⟨members, rfl⟩ := Json.exists_of_kind_object hkind
      cases hvalid
      -- Under the name of a field stands what passed of it and nothing else, so the second time
      -- it adds the same part.
      have hfields : ∀ field ∈ fields,
          field.outline scope (Field.outlineAll scope members {} fields).valid =
              field.outline scope members ∧
            field.gaps (Field.outlineAll scope members {} fields).valid = [] := by
        intro field declared
        refine Field.outline_eq_of_present?_eq (fun name shape heq => ?_)
          (Field.present?_valid_outlineAll distinct.1 declared)
        rw [heq] at declared
        exact ih name shape declared (Field.eachInside_iff.mp distinct.2 name shape declared)
      refine ⟨?_, Field.allGaps_eq_nil fun field declared => (hfields field declared).2⟩
      show (Field.outlineAll scope _ {} fields).outcome =
        (Field.outlineAll scope _ {} fields).outcome
      rw [Field.outlineAll_congr fun field declared => (hfields field declared).1]
    · rw [Shape.outline_of_kind_ne hkind] at hvalid
      cases hvalid
  | emptyArray =>
    intro scope value tree hvalid
    by_cases hkind : value.kind = .array
    · obtain ⟨items, rfl⟩ := Json.exists_of_kind_array hkind
      cases hvalid
      exact ⟨rfl, rfl⟩
    · rw [Shape.outline_of_kind_ne hkind] at hvalid
      cases hvalid
  | arrayOf element ih =>
    intro scope value tree hvalid
    by_cases hkind : value.kind = .array
    · obtain ⟨items, rfl⟩ := Json.exists_of_kind_array hkind
      cases hvalid
      -- Each slot holds what passed of its item, or null, and both settle.
      have hitem := (ih distinct).validTree scope
      constructor
      · show Outcome.ofItems (List.map _ (List.map _ (List.map _ items))) =
          Outcome.ofItems (List.map _ items)
        rw [List.map_map, List.map_map]
        exact congrArg Outcome.ofItems (List.map_congr_left fun item _ => (hitem item).1)
      · refine List.flatMap_eq_nil_iff.mpr fun entry hentry => ?_
        have hmem := List.fst_mem_of_mem_zipIdx hentry
        rw [List.map_map] at hmem
        obtain ⟨item, -, heq⟩ := List.mem_map.mp hmem
        have hgaps : element.gaps entry.1 = [] := heq ▸ (hitem item).2
        show (element.gaps entry.1).map _ = []
        rw [hgaps, List.map_nil]
    · rw [Shape.outline_of_kind_ne hkind] at hvalid
      cases hvalid

namespace Validator

/-- What passed passes again. If a validator without setters answers an outcome for a document, it
answers one for the tree of what passed, and that outcome has the same tree, the same verdict and
the same errors up to their messages. Messages can differ since a catalog may go on counting. -/
theorem exists_answer_of_valid {validator : Validator} {source : String} {document valid : Json}
    {store later : Store} {outcome : Outcome} (free : validator.NoSetters)
    (sound : validator.CacheSound store) (soundLater : validator.CacheSound later)
    (answered : (validator.validate source document).answer store = .ok outcome)
    (passed : outcome.valid = some valid) :
    ∃ again, (validator.validate source valid).answer later = .ok again ∧
      again.valid = some valid ∧ again.isValid = outcome.isValid ∧
      again.errors.map Json.skeleton = outcome.errors.map Json.skeleton := by
  obtain ⟨shape, parsed⟩ := sound.exists_parsed answered
  have distinct := (Shape.wellFormed_of_parse parsed).1.distinct
  rw [sound.answer_validate parsed] at answered
  have houtline := shape.wordless_of_gives free (gives_of_answer answered)
  -- Up to messages the outcome is the outline, and the outline settles.
  have hvalid : (shape.outline validator document).valid = some valid := by
    rw [← houtline]
    exact passed
  obtain ⟨hfixed, hgaps⟩ :=
    shape.settles_of_distinctNames distinct validator document valid hvalid
  obtain ⟨again, hagain⟩ := validator.exists_answer_of_gaps_eq_nil hgaps
    ((validator.parse source).after later)
  have hwordless : again.wordless = outcome.wordless := by
    rw [shape.wordless_of_gives free (gives_of_answer hagain), hfixed, houtline]
  have herrors : again.errors.map Json.skeleton = outcome.errors.map Json.skeleton :=
    congrArg Outcome.errors hwordless
  refine ⟨again, ?_, (congrArg Outcome.valid hwordless).trans passed, ?_, herrors⟩
  · rw [soundLater.answer_validate parsed]
    exact hagain
  · have hnone := congrArg Option.isNone herrors
    rw [Option.isNone_map, Option.isNone_map] at hnone
    exact hnone

/-- Only pets that are not called lace pass. -/
def choosy : Builder :=
  { schema := .ofList [("name", .rule (.ofTest fun value =>
      if value = .string "lace" then some "not her" else none))]
    catalog := .numbered (Catalog.counting "missing ") 0 }

/-- The validator that is built here has one entry, a rule that only tests. -/
theorem noSetters_choosy (store : Store) : (choosy.build.answer store).NoSetters := by
  have hentry (name : String) (entry : Entry)
      (h : OrderedMap.get? (choosy.build.answer store).schema name = some entry) :
      ∃ test, entry = .rule (.ofTest test) := by
    have hfind : (if "name" = name then some _ else none) = some entry := h
    split at hfind
    · cases hfind
      exact ⟨_, rfl⟩
    · cases hfind
  refine forall_uses_iff.mpr ⟨fun name rule entry => ?_, fun name inner entry => ?_⟩
  · obtain ⟨test, heq⟩ := hentry name _ entry
    cases heq
    rfl
  · obtain ⟨test, heq⟩ := hentry name _ entry
    cases heq

/-- A missing field, a value of the wrong kind in a slot and a field that its rule refuses. The
second time all three are missing or null, and the messages count on. -/
theorem pets_pass_again :
    let validator : Validator := choosy.build.answer {}
    let store : Store := choosy.build.after {}
    let source : String := "{note,pets[{name,tags[]}]}"
    let document : Json := .object [("age", .nat 3), ("pets", .array [
      .string "roojoo", .object [("name", .string "lace"), ("tags", .array [])]])]
    let valid : Json := .object [("pets", .array [.null, .object [("tags", .array [])]])]
    let outcome : Outcome :=
      ⟨some valid, some (.object [("note", .string "missing 0"), ("pets", .array [
        .string "missing 1", .object [("name", .string "not her")]])])⟩
    let later : Store := (validator.validate source document).after store
    validator.NoSetters ∧ validator.CacheSound store ∧ validator.CacheSound later ∧
      (validator.validate source document).answer store = .ok outcome ∧
      ∃ again, (validator.validate source valid).answer later = .ok again ∧
        again.valid = some valid ∧ again.isValid = outcome.isValid ∧
        again.errors.map Json.skeleton = outcome.errors.map Json.skeleton := by
  intro validator store source document valid outcome later
  have free : validator.NoSetters := noSetters_choosy {}
  have sound : validator.CacheSound store := choosy.cacheSound_build rfl
  have answered : (validator.validate source document).answer store = .ok outcome := by
    decide +kernel
  have soundLater : validator.CacheSound later := sound.validate source document
  exact ⟨free, sound, soundLater, answered,
    exists_answer_of_valid free sound soundLater answered rfl⟩

end Validator

end DocShape
