import DocShape.Proofs.Shape.Completeness

/-!
# `DocShape.Proofs.Shape.Limits`: what a smaller limit changes

The reader looks at its limit at one point only, where a container opens. So with a smaller limit
a step is the same step, or the bracket is one too many (`State.step_of_le`), and a text is read
alike up to such a bracket (`Shape.parse_of_le`).

Hence the shape of a text does not depend on the limit that it was read under, only whether there
is one: `Shape.parse_of_deeper` says what is left of a shape that is deeper than the limit.
-/

set_option autoImplicit false

namespace DocShape

namespace Shape.Reader

variable {small large : Nat}

/-- A container that has room has it, or is refused, under a smaller limit. -/
theorem openContainer_of_le (le : small ≤ large) (offset : Nat) (b : Bracket)
    (frames : List Frame) :
    openContainer small offset b frames = openContainer large offset b frames ∨
      openContainer small offset b frames = .error (.tooDeep small offset) := by
  unfold openContainer
  by_cases room : frames.length < small
  · have hlarge : frames.length < large := by omega
    rw [if_pos room, if_pos hlarge]
    exact .inl rfl
  · rw [if_neg room]
    exact .inr rfl

/-- Under a smaller limit a step from inside a container is the same, or it opens one too many. -/
theorem Place.step_of_le (le : small ≤ large) (place : Place) (frames : List Frame)
    (offset : Nat) (c : Char) :
    place.step small frames offset c = place.step large frames offset c ∨
      place.step small frames offset c = .error (.tooDeep small offset) := by
  -- Only behind a name and in front of an element can a container open.
  cases place with
  | fieldName opened fields start letters =>
    simp only [Place.step]
    split
    · split
      · exact openContainer_of_le le ..
      · exact .inl rfl
    · exact .inl rfl
  | elementStart opened =>
    simp only [Place.step]
    split
    · exact .inl rfl
    · split
      · exact .inl rfl
      · split
        · exact openContainer_of_le le ..
        · exact .inl rfl
  | fieldStart opened fields => exact .inl rfl
  | fieldEnd opened fields => exact .inl rfl
  | elementEnd opened element => exact .inl rfl

/-- Under a smaller limit a step is the same, or it opens a container too many. -/
theorem State.step_of_le (le : small ≤ large) (state : State) (offset : Nat) (c : Char) :
    state.step small offset c = state.step large offset c ∨
      state.step small offset c = .error (.tooDeep small offset) := by
  cases state with
  | start =>
    simp only [State.step]
    split
    · exact .inl rfl
    · split
      · exact openContainer_of_le le ..
      · exact .inl rfl
  | inside place frames => exact place.step_of_le le frames offset c
  | done shape => exact .inl rfl

/-- Under a smaller limit a run is the same, or it ends where a container is one too many. -/
theorem State.run_of_le (le : small ≤ large) (state : State) (text : List (Nat × Char)) :
    state.run small text = state.run large text ∨
      ∃ offset, state.run small text = .error (.tooDeep small offset) := by
  induction text generalizing state with
  | nil => exact .inl rfl
  | cons head rest ih =>
    obtain ⟨offset, c⟩ := head
    simp only [State.run]
    rcases state.step_of_le le offset c with hsame | hdeep
    · rw [hsame]
      cases state.step large offset c with
      | error error => exact .inl rfl
      | ok next => exact ih next
    · rw [hdeep]
      exact .inr ⟨offset, rfl⟩

end Shape.Reader

namespace Shape

/-- Under a smaller limit a text reads the same, or it nests too deep. -/
theorem parse_of_le {small large : Nat} (le : small ≤ large) (source : String) :
    Shape.parse source small = Shape.parse source large ∨
      ∃ offset, Shape.parse source small = .error (.tooDeep small offset) := by
  unfold Shape.parse
  rcases Reader.State.run_of_le le .start (Reader.locate 0 source.toList) with hsame | hdeep
  · rw [hsame]
    exact .inl rfl
  · obtain ⟨offset, hdeep⟩ := hdeep
    rw [hdeep]
    exact .inr ⟨offset, rfl⟩

variable {source : String} {limit other : Nat} {shape : Shape}

/-- A shape that fits is read, whatever limit it was read under before. -/
theorem parse_of_depth_le (read : Shape.parse source other = .ok shape)
    (fits : shape.depth ≤ limit) : Shape.parse source limit = .ok shape := by
  obtain ⟨root, distinct, -⟩ := parse_eq_ok_iff.mp read
  exact parse_eq_ok_iff.mpr ⟨root, distinct, fits⟩

/-- A shape that was read under some limit nests too deep for one that it does not fit. -/
theorem parse_of_deeper (read : Shape.parse source other = .ok shape)
    (deeper : limit < shape.depth) :
    ∃ offset, Shape.parse source limit = .error (.tooDeep limit offset) := by
  have hother : shape.depth ≤ other := (parse_eq_ok_iff.mp read).2.2
  rcases parse_of_le (by omega : limit ≤ other) source with hsame | hdeep
  · -- What is read fits its limit, and this shape does not.
    rw [read] at hsame
    have hlimit : shape.depth ≤ limit := (parse_eq_ok_iff.mp hsame).2.2
    omega
  · exact hdeep

end Shape

end DocShape
