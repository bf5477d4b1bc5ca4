import DocShape.Proofs.Shape.Completeness
import Mathlib.Data.List.Induction

/-!
# `DocShape.Proofs.Shape.Refusals`: where reading stops

`Reaches` says where the reader is behind a text, and `Reaches.induction` goes along the text one
character at a time. A text that cannot be read is refused at one of its characters or at its end,
and the reader gets there (`exists_refusal`). Two lists say what the faults are then:

* `Refusal`: the characters that a state refuses.
* `Unfinished`: the states that no text can end in.

Neither depends on what stands behind the character, so `parse_of_refusal`: each text that begins
in the same way is refused in the same way.
-/

set_option autoImplicit false

namespace DocShape

namespace Shape

namespace Reader

/-! ### The state behind a text -/

/-- The bytes of a text are those of its UTF-8 form. -/
theorem utf8ByteSize_ofList (cs : List Char) :
    (String.ofList cs).utf8ByteSize = textSize cs := by
  induction cs with
  | nil => rfl
  | cons c cs ih =>
    rw [String.ofList_cons, String.utf8ByteSize_append, String.utf8ByteSize_singleton, ih,
      textSize]

/-- The reader is in the state once it took the text. -/
def Reaches (limit : Nat) (cs : List Char) (state : State) : Prop :=
  State.start.run limit (locate 0 cs) = .ok state

/-- A text of one character is one step. -/
theorem run_singleton (limit offset : Nat) (state : State) (c : Char) :
    state.run limit (locate offset [c]) = state.step limit offset c := by
  show (state.step limit offset c >>= fun next => .ok next) = _
  cases state.step limit offset c <;> rfl

/-- The last character of a text is taken where the reader is behind the others. -/
theorem reaches_concat {limit : Nat} {cs : List Char} {c : Char} {next : State} :
    Reaches limit (cs ++ [c]) next ↔
      ∃ state, Reaches limit cs state ∧ state.step limit (textSize cs) c = .ok next := by
  unfold Reaches
  rw [locate_append, State.run_append, Nat.zero_add]
  constructor
  · intro h
    obtain ⟨state, hstate, hnext⟩ := exists_of_bind_ok h
    rw [run_singleton] at hnext
    exact ⟨state, hstate, hnext⟩
  · rintro ⟨state, hstate, hnext⟩
    rw [hstate]
    show state.run limit (locate (textSize cs) [c]) = .ok next
    rw [run_singleton, hnext]

/-- Induction along a text. A step takes the next character, with the size of what was read so far
as its offset. -/
theorem Reaches.induction {limit : Nat} {motive : List Char → State → Prop}
    (start : motive [] .start)
    (step : ∀ {cs : List Char} {c : Char} {state next : State}, Reaches limit cs state →
      Step limit (textSize cs) c state next → motive cs state → motive (cs ++ [c]) next)
    {cs : List Char} {state : State} (h : Reaches limit cs state) : motive cs state := by
  -- The last character is split off, since the offset of a step is the size of what is before it.
  induction cs using List.reverseRecOn generalizing state with
  | nil =>
    cases h
    exact start
  | append_singleton cs c ih =>
    obtain ⟨before, hbefore, hstep⟩ := reaches_concat.mp h
    exact step hbefore (.of_step hstep) (ih hbefore)

/-- What was read so far is made of pieces of the grammar. -/
theorem Reaches.stateText {limit : Nat} {cs : List Char} {state : State}
    (h : Reaches limit cs state) : StateText cs state :=
  State.run_invariant StateText.step (StateText.start blanks_nil) h

/-- As long as no bracket was read there is nothing but white space. -/
theorem Reaches.blanks {limit : Nat} {cs : List Char} (h : Reaches limit cs .start) :
    Blanks cs := by
  cases h.stateText with
  | start blank => exact blank

/-- What the reader holds fits the limit. -/
theorem Reaches.fits {limit : Nat} {cs : List Char} {state : State}
    (h : Reaches limit cs state) : state.Fits limit :=
  @State.run_invariant limit (fun _ state => state.Fits limit) State.Fits.step [] cs 0 .start
    state trivial h

/-! ### Faults at a character -/

/-- The characters that a state refuses, with the fault. -/
inductive Refusal (limit offset : Nat) (c : Char) : State → SyntaxError → Prop where
  | root (solid : isBlank c = false) (other : Bracket.ofOpening? c = none) :
    Refusal limit offset c .start (.unexpectedRoot c offset)
  | deep {state : State} (b : Bracket) (char : c = b.opening) (full : limit ≤ state.openCount) :
    Refusal limit offset c state (.tooDeep limit offset)
  | nameless {opened : Nat} {fields : List Field} {frames : List Frame}
    (delimiter : isDelimiter c = true) :
    Refusal limit offset c (.inside (.fieldStart opened fields) frames) (.emptyFieldName offset)
  | misplaced {place : Place} {frames : List Frame} (expected : String)
    (solid : isBlank c = false) :
    Refusal limit offset c (.inside place frames) (.unexpected expected c offset)
  | leafTwice {opened start : Nat} {fields : List Field} {letters : List Char}
    {frames : List Frame} (delimiter : isDelimiter c = true)
    (taken : ∃ earlier ∈ fields, earlier.name = nameOf letters) :
    Refusal limit offset c (.inside (.fieldName opened fields start letters) frames)
      (.duplicateField (nameOf letters) start)
  | shapeTwice {place : Place} {opened start : Nat} {fields : List Field} {name : String}
    {frames : List Frame} (char : c = place.bracket.1.closing)
    (taken : ∃ earlier ∈ fields, earlier.name = name) :
    Refusal limit offset c (.inside place (.field opened fields start name :: frames))
      (.duplicateField name start)
  | trailing {shape : Shape} (solid : isBlank c = false) :
    Refusal limit offset c (.done shape) (.trailingInput offset)

/-- A field is not added if an earlier one has its name. -/
theorem addField_error {fields : List Field} {field : Field} {start : Nat} {error : SyntaxError}
    (h : addField fields field start = .error error) :
    (∃ earlier ∈ fields, earlier.name = field.name) ∧
      error = .duplicateField field.name start := by
  unfold addField at h
  split at h
  · next taken => exact ⟨by simpa using taken, (Except.error.inj h).symm⟩
  · cases h

/-- A container is refused for its depth only. -/
theorem openContainer_error {limit offset : Nat} {b : Bracket} {frames : List Frame}
    {error : SyntaxError} (h : openContainer limit offset b frames = .error error) :
    limit ≤ frames.length ∧ error = .tooDeep limit offset := by
  unfold openContainer at h
  split at h
  · cases h
  · next full => exact ⟨Nat.le_of_not_lt full, (Except.error.inj h).symm⟩

/-- A bind fails in its first part or in its second. -/
theorem bind_error {ε α β : Type} {first : Except ε α} {next : α → Except ε β} {error : ε}
    (h : (first >>= next) = .error error) :
    first = .error error ∨ ∃ found, first = .ok found ∧ next found = .error error := by
  cases first with
  | error fault =>
    cases h
    exact .inl rfl
  | ok found => exact .inr ⟨found, rfl, h⟩

namespace Refusal

variable {limit offset : Nat} {c : Char} {place : Place} {frames : List Frame}
  {error : SyntaxError}

/-- A closing bracket is refused if its container is a field whose name was given before. -/
theorem of_complete {shape : Shape} (char : c = place.bracket.1.closing)
    (h : complete shape frames = .error error) :
    Refusal limit offset c (.inside place frames) error := by
  match frames with
  | [] => cases h
  | .element _ :: _ => cases h
  | .field opened fields start name :: outer =>
    rcases bind_error h with hadd | ⟨_, -, hnext⟩
    · obtain ⟨taken, rfl⟩ := addField_error hadd
      exact .shapeTwice char taken
    · cases hnext

/-- What is refused where a field should end is a name that is taken further out, or a character
that is no delimiter of the field. -/
theorem of_endField {opened : Nat} {fields : List Field}
    (bracket : place.bracket.1 = .brace) (solid : isBlank c = false)
    (h : endField opened fields frames offset c = .error error) :
    Refusal limit offset c (.inside place frames) error := by
  unfold endField at h
  split at h
  · cases h
  · split at h
    · next char => exact of_complete (by rw [bracket]; exact char) h
    · cases h
      exact .misplaced _ solid

/-- A bracket that opens is refused for its depth only. -/
theorem of_openContainer {b : Bracket} {inner : Frame} (char : c = b.opening)
    (h : openContainer limit offset b (inner :: frames) = .error error) :
    Refusal limit offset c (.inside place frames) error := by
  obtain ⟨full, rfl⟩ := openContainer_error h
  exact .deep b char full

/-- A character that is refused inside a container is on the list. -/
theorem of_place_step (h : place.step limit frames offset c = .error error) :
    Refusal limit offset c (.inside place frames) error := by
  cases place with
  -- At each place the tests of its step one after another. A test that passes without a fault
  -- leaves nothing to show.
  | fieldStart opened fields =>
    simp only [Place.step] at h
    split at h
    · cases h
    · split at h
      · next char => exact of_complete char.1 h
      · split at h
        · next delimiter =>
          cases h
          exact .nameless delimiter
        · cases h
  | fieldName opened fields start letters =>
    simp only [Place.step] at h
    split at h
    · next delimiter =>
      split at h
      · next b hb => exact of_openContainer (eq_opening_of_ofOpening? hb) h
      · -- The name of a leaf field is compared first, and then the delimiter behind it is
        -- looked at.
        rcases bind_error h with hadd | ⟨fields', -, hend⟩
        · obtain ⟨taken, rfl⟩ := addField_error hadd
          exact .leafTwice delimiter taken
        · exact of_endField rfl (Grammar.isBlank_of_isDelimiter delimiter) hend
    · cases h
  | fieldEnd opened fields =>
    simp only [Place.step] at h
    split at h
    · cases h
    · next solid => exact of_endField rfl (by simpa using solid) h
  | elementStart opened =>
    simp only [Place.step] at h
    split at h
    · cases h
    · next solid =>
      split at h
      · next char => exact of_complete char h
      · split at h
        · next b hb => exact of_openContainer (eq_opening_of_ofOpening? hb) h
        · cases h
          exact .misplaced _ (by simpa using solid)
  | elementEnd opened element =>
    simp only [Place.step] at h
    split at h
    · cases h
    · next solid =>
      split at h
      · next char => exact of_complete char h
      · cases h
        exact .misplaced _ (by simpa using solid)

/-- A character that is refused is on the list. -/
theorem of_step {state : State} (h : state.step limit offset c = .error error) :
    Refusal limit offset c state error := by
  cases state with
  | start =>
    simp only [State.step] at h
    split at h
    · cases h
    · next solid =>
      split at h
      · next b hb =>
        obtain ⟨full, rfl⟩ := openContainer_error h
        exact .deep b (eq_opening_of_ofOpening? hb) full
      · next other =>
        cases h
        exact .root (by simpa using solid) other
  | inside place frames => exact of_place_step h
  | done shape =>
    simp only [State.step] at h
    split at h
    · cases h
    · next solid =>
      cases h
      exact .trailing (by simpa using solid)

end Refusal

/-! ### Faults at the end -/

/-- The states that no text can end in, with the fault. -/
inductive Unfinished : State → SyntaxError → Prop where
  | nothing : Unfinished .start .empty
  | unclosed (place : Place) (frames : List Frame) :
    Unfinished (.inside place frames) place.unclosed
  | leafTwice {opened start : Nat} {fields : List Field} {letters : List Char}
    {frames : List Frame} (taken : ∃ earlier ∈ fields, earlier.name = nameOf letters) :
    Unfinished (.inside (.fieldName opened fields start letters) frames)
      (.duplicateField (nameOf letters) start)

/-- A text that is over too early is on the list. -/
theorem Unfinished.of_finish {state : State} {error : SyntaxError}
    (h : state.finish = .error error) : Unfinished state error := by
  cases state with
  | start =>
    cases h
    exact .nothing
  | done shape => cases h
  | inside place frames =>
    cases h
    cases place with
    | fieldName opened fields start letters =>
      -- The name is compared before the bracket is missed.
      rw [Place.finish]
      split
      · exact .unclosed (.fieldName opened fields start letters) frames
      · next hadd =>
        obtain ⟨taken, rfl⟩ := addField_error hadd
        exact .leafTwice taken
    | fieldStart opened fields => exact .unclosed _ frames
    | fieldEnd opened fields => exact .unclosed _ frames
    | elementStart opened => exact .unclosed _ frames
    | elementEnd opened element => exact .unclosed _ frames

/-- A run that stops has taken the text in front of a character and refuses that one. -/
theorem exists_of_run_error {limit offset : Nat} {state : State} {cs : List Char}
    {error : SyntaxError} (h : state.run limit (locate offset cs) = .error error) :
    ∃ front c back last, cs = front ++ c :: back ∧
      state.run limit (locate offset front) = .ok last ∧
      last.step limit (offset + textSize front) c = .error error := by
  induction cs generalizing offset state with
  | nil => cases h
  | cons d ds ih =>
    -- Either the first character is refused, or the run stops somewhere behind it.
    rcases bind_error h with hrefused | ⟨next, hstep, hrest⟩
    · exact ⟨[], d, ds, state, rfl, rfl, hrefused⟩
    · obtain ⟨front, c, back, last, rfl, hrun, hrefused⟩ := ih hrest
      refine ⟨d :: front, c, back, last, rfl, ?_, ?_⟩
      · rw [locate, State.run, hstep]
        exact hrun
      · rw [textSize, ← Nat.add_assoc]
        exact hrefused

end Reader

open Reader

/-- A text that cannot be read is refused at one of its characters, or it ends too early. -/
theorem exists_refusal {source : String} {limit : Nat} {error : SyntaxError}
    (h : Shape.parse source limit = .error error) :
    (∃ front c back state, source.toList = front ++ c :: back ∧ Reaches limit front state ∧
      state.step limit (textSize front) c = .error error) ∨
    ∃ state, Reaches limit source.toList state ∧ state.finish = .error error := by
  rcases bind_error h with hrun | ⟨state, hrun, hfinish⟩
  · obtain ⟨front, c, back, state, hsplit, hstate, hrefused⟩ := exists_of_run_error hrun
    rw [Nat.zero_add] at hrefused
    exact .inl ⟨front, c, back, state, hsplit, hstate, hrefused⟩
  · exact .inr ⟨state, hrun, hfinish⟩

/-- Every text that begins with the characters up to a refused one is refused there. -/
theorem parse_of_refusal {limit : Nat} {front back : List Char} {c : Char} {state : State}
    {error : SyntaxError} (reaches : Reaches limit front state)
    (refused : state.step limit (textSize front) c = .error error) {source : String}
    (h : source.toList = front ++ c :: back) : Shape.parse source limit = .error error := by
  have hrun : State.start.run limit (locate 0 front) = .ok state := reaches
  rw [Shape.parse, h, locate_append, State.run_append, hrun, Nat.zero_add, locate]
  simp only [Except.bind, State.run, refused]
  rfl

end Shape

end DocShape
