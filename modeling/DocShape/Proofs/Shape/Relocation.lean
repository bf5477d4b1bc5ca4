import DocShape.Shape.Reader
import Mathlib.Data.List.Forall2

/-!
# `DocShape.Proofs.Shape.Relocation`: offsets are only passed on

The reader notes where brackets and names begin and never looks at these offsets again, except to
put them into a fault. So two runs over the same characters at different places stay in step: each
state of one is the state of the other with its offsets exchanged, and so is the fault if there is
one (`State.Relocated.run`). Which offsets stand for each other is left to a relation.
-/

set_option autoImplicit false

namespace DocShape

/-- Two faults are one and the same up to their places. -/
inductive SyntaxError.Relocated (same : Nat → Nat → Prop) : SyntaxError → SyntaxError → Prop where
  | empty : Relocated same .empty .empty
  | unexpectedRoot {offset offset' : Nat} (found : Char) (place : same offset offset') :
    Relocated same (.unexpectedRoot found offset) (.unexpectedRoot found offset')
  | emptyFieldName {offset offset' : Nat} (place : same offset offset') :
    Relocated same (.emptyFieldName offset) (.emptyFieldName offset')
  | unclosed {offset offset' : Nat} (opening : Char) (place : same offset offset') :
    Relocated same (.unclosed opening offset) (.unclosed opening offset')
  | unexpected {offset offset' : Nat} (expected : String) (found : Char)
    (place : same offset offset') :
    Relocated same (.unexpected expected found offset) (.unexpected expected found offset')
  | trailingInput {offset offset' : Nat} (place : same offset offset') :
    Relocated same (.trailingInput offset) (.trailingInput offset')
  | duplicateField {offset offset' : Nat} (name : String) (place : same offset offset') :
    Relocated same (.duplicateField name offset) (.duplicateField name offset')
  | tooDeep {offset offset' : Nat} (limit : Nat) (place : same offset offset') :
    Relocated same (.tooDeep limit offset) (.tooDeep limit offset')

namespace Shape.Reader

/-- Two places in a container are one and the same up to offsets. -/
inductive Place.Relocated (same : Nat → Nat → Prop) : Place → Place → Prop where
  | fieldStart {opened opened' : Nat} (fields : List Field) (bracket : same opened opened') :
    Relocated same (.fieldStart opened fields) (.fieldStart opened' fields)
  | fieldName {opened opened' start start' : Nat} (fields : List Field) (letters : List Char)
    (bracket : same opened opened') (begins : same start start') :
    Relocated same (.fieldName opened fields start letters)
      (.fieldName opened' fields start' letters)
  | fieldEnd {opened opened' : Nat} (fields : List Field) (bracket : same opened opened') :
    Relocated same (.fieldEnd opened fields) (.fieldEnd opened' fields)
  | elementStart {opened opened' : Nat} (bracket : same opened opened') :
    Relocated same (.elementStart opened) (.elementStart opened')
  | elementEnd {opened opened' : Nat} (element : Shape) (bracket : same opened opened') :
    Relocated same (.elementEnd opened element) (.elementEnd opened' element)

/-- Two containers that wait are one and the same up to offsets. -/
inductive Frame.Relocated (same : Nat → Nat → Prop) : Frame → Frame → Prop where
  | field {opened opened' start start' : Nat} (fields : List Field) (name : String)
    (bracket : same opened opened') (begins : same start start') :
    Relocated same (.field opened fields start name) (.field opened' fields start' name)
  | element {opened opened' : Nat} (bracket : same opened opened') :
    Relocated same (.element opened) (.element opened')

/-- Two states are one and the same up to offsets. -/
inductive State.Relocated (same : Nat → Nat → Prop) : State → State → Prop where
  | start : Relocated same .start .start
  | inside {place place' : Place} {frames frames' : List Frame}
    (inner : place.Relocated same place')
    (outer : List.Forall₂ (Frame.Relocated same) frames frames') :
    Relocated same (.inside place frames) (.inside place' frames')
  | done (shape : Shape) : Relocated same (.done shape) (.done shape)

/-- Two parts of a reading end alike: with results that correspond, or with the same fault at
places that do. -/
inductive EndsAlike {α : Type} (same : Nat → Nat → Prop) (values : α → α → Prop) :
    Except SyntaxError α → Except SyntaxError α → Prop where
  | ok {value value' : α} (h : values value value') :
    EndsAlike same values (.ok value) (.ok value')
  | error {error error' : SyntaxError} (h : error.Relocated same error') :
    EndsAlike same values (.error error) (.error error')

variable {same : Nat → Nat → Prop}

/-- Two parts in a row end alike if both do. -/
theorem EndsAlike.bind {α β : Type} {values : α → α → Prop} {others : β → β → Prop}
    {first first' : Except SyntaxError α} {next next' : α → Except SyntaxError β}
    (alike : EndsAlike same values first first')
    (h : ∀ value value', values value value' →
      EndsAlike same others (next value) (next' value')) :
    EndsAlike same others (first >>= next) (first' >>= next') := by
  cases alike with
  | ok hvalue => exact h _ _ hvalue
  | error herror => exact .error herror

/-! ### One step -/

/-- What a step ends with, up to offsets. -/
abbrev StepsAlike (same : Nat → Nat → Prop) (step step' : Except SyntaxError State) : Prop :=
  EndsAlike same (State.Relocated same) step step'

/-- Behind an opening bracket the places differ in its offset only. -/
theorem Place.Relocated.behind {offset offset' : Nat} (place : same offset offset')
    (b : Bracket) : (Place.behind offset b).Relocated same (.behind offset' b) := by
  cases b with
  | brace => exact .fieldStart [] place
  | square => exact .elementStart place

/-- A container opens if there is room, whatever the offsets are. -/
theorem openContainer_alike {limit offset offset' : Nat} {frames frames' : List Frame}
    (place : same offset offset') (outer : List.Forall₂ (Frame.Relocated same) frames frames')
    (b : Bracket) :
    StepsAlike same (openContainer limit offset b frames)
      (openContainer limit offset' b frames') := by
  unfold openContainer
  -- There is room or not by the number of frames, and both runs have as many.
  rw [outer.length_eq]
  split
  · exact .ok (.inside (.behind place b) outer)
  · exact .error (.tooDeep limit place)

/-- A field is added alike, whatever the offset of its name is. -/
theorem addField_alike {start start' : Nat} (begins : same start start') (fields : List Field)
    (field : Field) : EndsAlike same Eq (addField fields field start)
      (addField fields field start') := by
  unfold addField
  -- Whether the name is taken depends on the fields, and they have no offsets.
  split
  · exact .error (.duplicateField field.name begins)
  · exact .ok rfl

/-- A complete shape is handed on alike. -/
theorem complete_alike {frames frames' : List Frame}
    (outer : List.Forall₂ (Frame.Relocated same) frames frames') (shape : Shape) :
    StepsAlike same (complete shape frames) (complete shape frames') := by
  cases outer with
  | nil => exact .ok (.done shape)
  | cons frame outer =>
    cases frame with
    | field fields name bracket begins =>
      refine (addField_alike begins fields (.nested name shape)).bind ?_
      rintro fields _ rfl
      exact .ok (.inside (.fieldEnd fields bracket) outer)
    | element bracket => exact .ok (.inside (.elementEnd shape bracket) outer)

/-- A field is ended alike. -/
theorem endField_alike {opened opened' offset offset' : Nat} {frames frames' : List Frame}
    (bracket : same opened opened') (place : same offset offset')
    (outer : List.Forall₂ (Frame.Relocated same) frames frames') (fields : List Field)
    (c : Char) :
    StepsAlike same (endField opened fields frames offset c)
      (endField opened' fields frames' offset' c) := by
  unfold endField
  split
  · exact .ok (.inside (.fieldStart fields bracket) outer)
  · split
    · exact complete_alike outer (.object fields)
    · exact .error (.unexpected _ c place)

/-- Two places that are the same up to offsets take a character alike. -/
theorem Place.Relocated.step {limit offset offset' : Nat} {place place' : Place}
    {frames frames' : List Frame} (inner : place.Relocated same place')
    (outer : List.Forall₂ (Frame.Relocated same) frames frames') (here : same offset offset')
    (c : Char) :
    StepsAlike same (place.step limit frames offset c) (place'.step limit frames' offset' c) := by
  -- No test of a step looks at an offset, so both take the same branch.
  cases inner with
  | fieldStart fields bracket =>
    simp only [Place.step]
    split
    · exact .ok (.inside (.fieldStart fields bracket) outer)
    · split
      · exact complete_alike outer (.object [])
      · split
        · exact .error (.emptyFieldName here)
        · exact .ok (.inside (.fieldName fields [c] bracket here) outer)
  | fieldName fields letters bracket begins =>
    simp only [Place.step]
    split
    · -- A delimiter ends the name: behind it is a container, or the field is a leaf.
      split
      · exact openContainer_alike here (.cons (.field fields _ bracket begins) outer) _
      · refine (addField_alike begins fields _).bind ?_
        rintro fields _ rfl
        exact endField_alike bracket here outer fields c
    · exact .ok (.inside (.fieldName fields (c :: letters) bracket begins) outer)
  | fieldEnd fields bracket =>
    simp only [Place.step]
    split
    · exact .ok (.inside (.fieldEnd fields bracket) outer)
    · exact endField_alike bracket here outer fields c
  | elementStart bracket =>
    simp only [Place.step]
    split
    · exact .ok (.inside (.elementStart bracket) outer)
    · split
      · exact complete_alike outer .emptyArray
      · split
        · exact openContainer_alike here (.cons (.element bracket) outer) _
        · exact .error (.unexpected _ c here)
  | elementEnd element bracket =>
    simp only [Place.step]
    split
    · exact .ok (.inside (.elementEnd element bracket) outer)
    · split
      · exact complete_alike outer (.arrayOf element)
      · exact .error (.unexpected _ c here)

/-- Two states that are the same up to offsets take a character alike. -/
theorem State.Relocated.step {limit offset offset' : Nat} {state state' : State}
    (alike : state.Relocated same state') (here : same offset offset') (c : Char) :
    StepsAlike same (state.step limit offset c) (state'.step limit offset' c) := by
  cases alike with
  | start =>
    simp only [State.step]
    split
    · exact .ok .start
    · split
      · exact openContainer_alike here .nil _
      · exact .error (.unexpectedRoot c here)
  | inside inner outer => exact inner.step outer here c
  | done shape =>
    simp only [State.step]
    split
    · exact .ok (.done shape)
    · exact .error (.trailingInput here)

/-! ### A whole text -/

/-- Two runs over the same characters at places that correspond end alike. -/
theorem State.Relocated.run {limit : Nat} {state state' : State} {xs ys : List (Nat × Char)}
    (alike : state.Relocated same state')
    (text : List.Forall₂ (fun x y => same x.1 y.1 ∧ x.2 = y.2) xs ys) :
    StepsAlike same (state.run limit xs) (state'.run limit ys) := by
  induction text generalizing state state' with
  | nil => exact .ok alike
  | @cons x y xs ys hhead _ ih =>
    obtain ⟨offset, c⟩ := x
    obtain ⟨offset', d⟩ := y
    obtain ⟨here, rfl⟩ := hhead
    simp only [State.run]
    exact (alike.step here c).bind fun next next' hnext => ih hnext

/-- An open bracket is missed alike at the end of the text. -/
theorem Place.Relocated.unclosed {place place' : Place} (alike : place.Relocated same place') :
    place.unclosed.Relocated same place'.unclosed := by
  cases alike with
  | fieldStart _ bracket => exact .unclosed _ bracket
  | fieldName _ _ bracket _ => exact .unclosed _ bracket
  | fieldEnd _ bracket => exact .unclosed _ bracket
  | elementStart bracket => exact .unclosed _ bracket
  | elementEnd _ bracket => exact .unclosed _ bracket

/-- The end of the text is taken alike as well. -/
theorem State.Relocated.finish {state state' : State} (alike : state.Relocated same state') :
    EndsAlike same Eq state.finish state'.finish := by
  cases alike with
  | start => exact .error .empty
  | done shape => exact .ok rfl
  | inside inner _ =>
    refine .error ?_
    cases inner with
    | fieldName fields letters bracket begins =>
      -- A name that ends with the text may be a second one, and that fault comes first.
      have hadd := addField_alike begins fields (.leaf (nameOf letters))
      simp only [Place.finish]
      generalize addField fields (.leaf (nameOf letters)) _ = added at hadd ⊢
      generalize addField fields (.leaf (nameOf letters)) _ = added' at hadd ⊢
      cases hadd with
      | ok hfields =>
        subst hfields
        exact (Place.Relocated.fieldEnd _ bracket).unclosed
      | error hduplicate => exact hduplicate
    | fieldStart fields bracket => exact (Place.Relocated.fieldStart fields bracket).unclosed
    | fieldEnd fields bracket => exact (Place.Relocated.fieldEnd fields bracket).unclosed
    | elementStart bracket => exact (Place.Relocated.elementStart bracket).unclosed
    | elementEnd element bracket => exact (Place.Relocated.elementEnd element bracket).unclosed

end Shape.Reader

end DocShape
