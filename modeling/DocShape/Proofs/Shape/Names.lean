import DocShape.Shape.Basic
import DocShape.Proofs.Text.Trim

/-!
# `DocShape.Proofs.Shape.Names`: the names in a shape

A shape built by hand may hold names that no text can spell. `Shape.ProperNames` says that every
name can be spelled, `Shape.DistinctNames` that no object of the shape has two fields of one name.
A shape with both is well formed.
-/

set_option autoImplicit false

namespace DocShape

/-- A name that a shape text can spell: it is not empty, has no white space at its ends and holds
no delimiter. -/
structure ProperName (name : String) : Prop where
  ne_nil : name.toList ≠ []
  head : ∀ c, name.toList.head? = some c → isBlank c = false
  last : ∀ c, name.toList.getLast? = some c → isBlank c = false
  plain : ∀ c ∈ name.toList, isDelimiter c = false

mutual

/-- The fields of every object in a shape have a property. -/
def Shape.EachObject (property : List Field → Prop) : Shape → Prop
  | .object fields => property fields ∧ Field.EachInside property fields
  | .emptyArray => True
  | .arrayOf element => element.EachObject property

/-- The fields of every object in the shapes of some fields have a property. -/
def Field.EachInside (property : List Field → Prop) : List Field → Prop
  | [] => True
  | .leaf _ :: rest => Field.EachInside property rest
  | .nested _ shape :: rest => shape.EachObject property ∧ Field.EachInside property rest

end

/-- No object of the shape has two fields of one name. -/
def Shape.DistinctNames (shape : Shape) : Prop :=
  shape.EachObject fun fields => (fields.map Field.name).Nodup

/-- An empty array has no names. -/
@[simp] theorem Shape.distinctNames_emptyArray : Shape.emptyArray.DistinctNames :=
  trivial

/-- The names of an array are those of its element. -/
@[simp] theorem Shape.distinctNames_arrayOf {element : Shape} :
    (Shape.arrayOf element).DistinctNames ↔ element.DistinctNames :=
  Iff.rfl

/-- Every field of every object of the shape has a name that a text can spell. -/
def Shape.ProperNames (shape : Shape) : Prop :=
  shape.EachObject fun fields => ∀ field ∈ fields, ProperName field.name

/-- A shape whose names can be spelled and are distinct in each object. -/
structure Shape.WellFormed (shape : Shape) : Prop where
  proper : shape.ProperNames
  distinct : shape.DistinctNames

/-- A declared field is found under its name, if no other field has that name. -/
theorem Shape.field?_of_mem {fields : List Field} {field : Field}
    (nodup : (fields.map Field.name).Nodup) (declared : field ∈ fields) :
    (Shape.object fields).field? field.name = some field := by
  unfold Shape.field? Shape.fields
  -- The search stops at the first field of the name, and there is only one.
  induction fields with
  | nil => cases declared
  | cons first rest ih =>
    obtain ⟨hfresh, nodup⟩ := List.nodup_cons.mp nodup
    rcases List.mem_cons.mp declared with rfl | declared
    · exact List.find?_cons_of_pos (by simp)
    · have hname : first.name ≠ field.name := fun heq =>
        hfresh (heq ▸ List.mem_map_of_mem declared)
      rw [List.find?_cons_of_neg (by simpa using hname)]
      exact ih nodup declared

namespace Field

variable {property : List Field → Prop}

/-- `EachInside` speaks of the fields one by one. -/
theorem eachInside_iff {fields : List Field} :
    EachInside property fields ↔
      ∀ name shape, nested name shape ∈ fields → shape.EachObject property := by
  induction fields with
  | nil => simp [EachInside]
  | cons field rest ih =>
    cases field with
    | leaf name => simp [EachInside, ih]
    | nested name shape =>
      -- The first field has a shape of its own, and the others have the rest.
      rw [EachInside, ih]
      constructor
      · rintro ⟨hshape, hrest⟩ other inner hmem
        rcases List.mem_cons.mp hmem with heq | hmem
        · cases heq
          exact hshape
        · exact hrest other inner hmem
      · intro hall
        exact ⟨hall name shape List.mem_cons_self, fun other inner hmem =>
          hall other inner (List.mem_cons_of_mem _ hmem)⟩

/-- What holds inside all fields of two groups holds inside both groups. -/
theorem eachInside_append {fields others : List Field} :
    EachInside property (fields ++ others) ↔
      EachInside property fields ∧ EachInside property others := by
  simp only [eachInside_iff, List.mem_append, or_imp, forall_and]

/-- The deepest of two groups of fields is the deeper of their deepest. -/
theorem deepest_append (fields others : List Field) :
    deepest (fields ++ others) = max (deepest fields) (deepest others) := by
  induction fields with
  | nil => simp [deepest]
  | cons field rest ih =>
    cases field with
    | leaf name => simp [deepest, ih]
    | nested name shape => simp [deepest, ih, Nat.max_assoc]

end Field

end DocShape
