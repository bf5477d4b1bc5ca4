import DocShape.Proofs.Shape.Completeness
import DocShape.Proofs.Shape.Unambiguous

/-!
# `DocShape.Proofs.Shape.RoundTrip`: texts and shapes

What reading a text and writing a shape have to do with each other:

* `parse_accepts_exactly_grammar`: a text is read if it is a text of the grammar, no object in it
  has two fields of one name and no more brackets are open at once than the limit allows. The
  shape is then the one that the grammar gives.
* `node_letters`: the canonical text of a shape is one of its texts if all names can be spelled.
* `parse_canonical_text`: reading the canonical text of a shape gives the shape back exactly if
  the shape is well formed and no deeper than the limit.
-/

set_option autoImplicit false

namespace DocShape

/-- A name that can be spelled is its own raw name. -/
theorem ProperName.rawName {name : String} (proper : ProperName name) :
    Grammar.RawName name.toList ∧ String.ofList (trim name.toList) = name := by
  have htrim := trim_eq_self proper.head proper.last
  refine ⟨⟨proper.plain, ?_⟩, ?_⟩
  · rw [htrim]
    exact proper.ne_nil
  · rw [htrim, String.ofList_toList]

namespace Shape

open Grammar

mutual

/-- The canonical text of a shape whose names can be spelled is a text of the shape. -/
theorem node_letters : ∀ shape : Shape, shape.ProperNames → Node shape.letters shape
  | .object fields, ⟨names, inside⟩ => by
    -- The grammar has a form of its own for the object without fields.
    rcases eq_or_ne fields [] with rfl | hne
    · exact .emptyObject blanks_nil
    · exact .object (fields_joined fields hne names inside)
  | .emptyArray, _ => .emptyArray blanks_nil
  | .arrayOf element, proper => by
    have hnode := Node.arrayOf blanks_nil (node_letters element proper) blanks_nil
    rw [List.nil_append, List.append_nil] at hnode
    exact hnode

/-- The text of a field is its name, which stands for itself, and the text of its shape. -/
theorem oneField_letters : ∀ field : Field, ProperName field.name →
    Field.EachInside (fun fields => ∀ field ∈ fields, ProperName field.name) [field] →
    OneField field.letters field
  | .leaf name, proper, _ => by
    obtain ⟨hraw, htrim⟩ := proper.rawName
    have hfield := OneField.leaf hraw
    rw [Field.name_leaf] at htrim hfield
    rw [htrim] at hfield
    exact hfield
  | .nested name shape, proper, ⟨inside, _⟩ => by
    obtain ⟨hraw, htrim⟩ := proper.rawName
    have hfield := OneField.nested hraw (node_letters shape inside)
    rw [Field.name_nested] at htrim hfield
    rw [htrim] at hfield
    exact hfield

/-- The texts of fields with commas between them are a text of the fields. -/
theorem fields_joined : ∀ fields : List Field, fields ≠ [] →
    (∀ field ∈ fields, ProperName field.name) →
    Field.EachInside (fun fields => ∀ field ∈ fields, ProperName field.name) fields →
    Fields (Field.joined fields) fields
  | [], hne, _, _ => absurd rfl hne
  -- The canonical text has no white space, so all of it in the grammar is empty.
  | [field], _, names, inside => by
    have hfield := Padded.mk blanks_nil
      (oneField_letters field (names field List.mem_cons_self) inside) blanks_nil
    rw [List.nil_append, List.append_nil] at hfield
    exact .one hfield
  | field :: next :: rest, _, names, inside => by
    rw [← List.singleton_append, Field.eachInside_append] at inside
    obtain ⟨hname, hrest⟩ := List.forall_mem_cons.mp names
    have hfield := Padded.mk blanks_nil (oneField_letters field hname inside.1) blanks_nil
    rw [List.nil_append, List.append_nil] at hfield
    exact .more hfield (fields_joined (next :: rest) (List.cons_ne_nil _ _) hrest inside.2)

end

/-- The canonical text of a shape that is well formed and fits is read as the shape. -/
theorem parse_text {shape : Shape} {limit : Nat} (wellFormed : shape.WellFormed)
    (room : shape.depth ≤ limit) : Shape.parse shape.text limit = .ok shape := by
  have hroot := Root.mk blanks_nil (node_letters shape wellFormed.proper) blanks_nil
  rw [List.nil_append, List.append_nil, ← toList_text] at hroot
  exact parse_eq_ok_iff.mpr ⟨hroot, wellFormed.distinct, room⟩

/-- A shape that was read is well formed and no deeper than the limit. -/
theorem wellFormed_of_parse {source : String} {limit : Nat} {shape : Shape}
    (h : Shape.parse source limit = .ok shape) : shape.WellFormed ∧ shape.depth ≤ limit := by
  obtain ⟨root, distinct, room⟩ := parse_eq_ok_iff.mp h
  exact ⟨⟨root.proper, distinct⟩, room⟩

/-- The reader accepts exactly the texts of the grammar whose objects have distinct names and
whose brackets are not open deeper than the limit, and gives the one shape that the grammar gives.
So every shape that was read has names that can be spelled, distinct in each object, and is no
deeper than the limit. -/
theorem parse_accepts_exactly_grammar (source : String) (limit : Nat) :
    (∀ shape, Shape.parse source limit = .ok shape ↔
      Root source.toList shape ∧ shape.DistinctNames ∧ peak 0 source.toList ≤ limit) ∧
    (∀ shape other, Root source.toList shape → Root source.toList other → shape = other) ∧
    (∀ shape, Shape.parse source limit = .ok shape →
      shape.ProperNames ∧ shape.DistinctNames ∧ shape.depth ≤ limit) := by
  refine ⟨fun shape => ?_, fun _ _ root other => root.unique other, fun shape h => ?_⟩
  · rw [parse_eq_ok_iff]
    constructor
    · rintro ⟨root, distinct, room⟩
      exact ⟨root, distinct, by rw [root.peak_eq]; exact room⟩
    · rintro ⟨root, distinct, room⟩
      exact ⟨root, distinct, by rw [← root.peak_eq]; exact room⟩
  · obtain ⟨wellFormed, room⟩ := wellFormed_of_parse h
    exact ⟨wellFormed.proper, wellFormed.distinct, room⟩

/-- Reading the canonical text of a shape gives the shape back exactly if the shape is well formed
and no deeper than the limit. So two well-formed shapes have different texts, and the canonical
text of a shape that was read is read as that shape under the same limit. -/
theorem parse_canonical_text (shape : Shape) (limit : Nat) :
    (Shape.parse shape.text limit = .ok shape ↔ shape.WellFormed ∧ shape.depth ≤ limit) ∧
    (∀ other : Shape, shape.WellFormed → other.WellFormed → shape.text = other.text →
      shape = other) ∧
    (∀ source, Shape.parse source limit = .ok shape →
      Shape.parse shape.text limit = .ok shape) := by
  refine ⟨⟨wellFormed_of_parse, fun h => parse_text h.1 h.2⟩, ?_, ?_⟩
  · intro other wellFormed wellFormed' htext
    -- One text under one limit is read once, so it cannot be read as both.
    have hshape := parse_text wellFormed (Nat.le_max_left shape.depth other.depth)
    have hother := parse_text wellFormed' (Nat.le_max_right shape.depth other.depth)
    rw [htext, hother] at hshape
    exact (Except.ok.inj hshape).symm
  · intro source h
    obtain ⟨wellFormed, room⟩ := wellFormed_of_parse h
    exact parse_text wellFormed room

end Shape

end DocShape
