import DocShape.Shape.Reader
import DocShape.Proofs.Shape.Grammar

/-!
# `DocShape.Proofs.Shape.Steps`: what one step of the reader can do

`Reader.Step` lists the steps that go on, one constructor for each, with all that their guards
say. Every fact about what the reader has read so far is a case analysis over this list, carried
along a text by `State.run_invariant`:

* `Step.of_step`: a step that goes on is one of the list.
* `State.run_invariant`: what every step keeps holds of the state behind a whole text.
-/

set_option autoImplicit false

namespace DocShape

namespace Shape.Reader

/-- The steps that go on, by the place that they start from. -/
inductive Step (limit offset : Nat) (c : Char) : State → State → Prop where
  | startBlank (blank : isBlank c = true) : Step limit offset c .start .start
  | startOpen (b : Bracket) (char : c = b.opening) (room : 0 < limit) :
    Step limit offset c .start (.inside (.behind offset b) [])
  | doneBlank {shape : Shape} (blank : isBlank c = true) :
    Step limit offset c (.done shape) (.done shape)
  | fieldBlank {opened : Nat} {fields : List Field} {frames : List Frame}
    (blank : isBlank c = true) :
    Step limit offset c (.inside (.fieldStart opened fields) frames)
      (.inside (.fieldStart opened fields) frames)
  | emptyClose {opened : Nat} {frames : List Frame} {next : State}
    (char : c = Bracket.brace.closing) (hand : complete (.object []) frames = .ok next) :
    Step limit offset c (.inside (.fieldStart opened []) frames) next
  | nameBegin {opened : Nat} {fields : List Field} {frames : List Frame}
    (solid : isBlank c = false) (plain : isDelimiter c = false) :
    Step limit offset c (.inside (.fieldStart opened fields) frames)
      (.inside (.fieldName opened fields offset [c]) frames)
  | nameLetter {opened start : Nat} {fields : List Field} {letters : List Char}
    {frames : List Frame} (plain : isDelimiter c = false) :
    Step limit offset c (.inside (.fieldName opened fields start letters) frames)
      (.inside (.fieldName opened fields start (c :: letters)) frames)
  | nameOpen {opened start : Nat} {fields : List Field} {letters : List Char}
    {frames : List Frame} (b : Bracket) (char : c = b.opening)
    (room : frames.length + 1 < limit) :
    Step limit offset c (.inside (.fieldName opened fields start letters) frames)
      (.inside (.behind offset b) (.field opened fields start (nameOf letters) :: frames))
  | nameComma {opened start : Nat} {fields fields' : List Field} {letters : List Char}
    {frames : List Frame} (char : c = ',')
    (add : addField fields (.leaf (nameOf letters)) start = .ok fields') :
    Step limit offset c (.inside (.fieldName opened fields start letters) frames)
      (.inside (.fieldStart opened fields') frames)
  | nameClose {opened start : Nat} {fields fields' : List Field} {letters : List Char}
    {frames : List Frame} {next : State} (char : c = Bracket.brace.closing)
    (add : addField fields (.leaf (nameOf letters)) start = .ok fields')
    (hand : complete (.object fields') frames = .ok next) :
    Step limit offset c (.inside (.fieldName opened fields start letters) frames) next
  | endBlank {opened : Nat} {fields : List Field} {frames : List Frame}
    (blank : isBlank c = true) :
    Step limit offset c (.inside (.fieldEnd opened fields) frames)
      (.inside (.fieldEnd opened fields) frames)
  | endComma {opened : Nat} {fields : List Field} {frames : List Frame} (char : c = ',') :
    Step limit offset c (.inside (.fieldEnd opened fields) frames)
      (.inside (.fieldStart opened fields) frames)
  | endClose {opened : Nat} {fields : List Field} {frames : List Frame} {next : State}
    (char : c = Bracket.brace.closing) (hand : complete (.object fields) frames = .ok next) :
    Step limit offset c (.inside (.fieldEnd opened fields) frames) next
  | elementBlank {opened : Nat} {frames : List Frame} (blank : isBlank c = true) :
    Step limit offset c (.inside (.elementStart opened) frames)
      (.inside (.elementStart opened) frames)
  | elementNone {opened : Nat} {frames : List Frame} {next : State}
    (char : c = Bracket.square.closing) (hand : complete .emptyArray frames = .ok next) :
    Step limit offset c (.inside (.elementStart opened) frames) next
  | elementOpen {opened : Nat} {frames : List Frame} (b : Bracket) (char : c = b.opening)
    (room : frames.length + 1 < limit) :
    Step limit offset c (.inside (.elementStart opened) frames)
      (.inside (.behind offset b) (.element opened :: frames))
  | closeBlank {opened : Nat} {element : Shape} {frames : List Frame}
    (blank : isBlank c = true) :
    Step limit offset c (.inside (.elementEnd opened element) frames)
      (.inside (.elementEnd opened element) frames)
  | elementClose {opened : Nat} {element : Shape} {frames : List Frame} {next : State}
    (char : c = Bracket.square.closing) (hand : complete (.arrayOf element) frames = .ok next) :
    Step limit offset c (.inside (.elementEnd opened element) frames) next

/-- A character that opens a bracket is its opening character. -/
theorem eq_opening_of_ofOpening? {c : Char} {b : Bracket} (h : Bracket.ofOpening? c = some b) :
    c = b.opening := by
  unfold Bracket.ofOpening? at h
  split at h
  · next hc => cases h; exact hc
  · split at h
    · next hc => cases h; exact hc
    · cases h

/-- A container opens where there is room for it. -/
theorem openContainer_ok {limit offset : Nat} {b : Bracket} {frames : List Frame} {next : State}
    (h : openContainer limit offset b frames = .ok next) :
    frames.length < limit ∧ next = .inside (.behind offset b) frames := by
  unfold openContainer at h
  split at h
  · next room => exact ⟨room, (Except.ok.inj h).symm⟩
  · cases h

/-- Behind a field comes a comma or the end of its object. -/
theorem endField_ok {opened offset : Nat} {fields : List Field} {frames : List Frame} {c : Char}
    {next : State} (h : endField opened fields frames offset c = .ok next) :
    (c = ',' ∧ next = .inside (.fieldStart opened fields) frames) ∨
      (c = Bracket.brace.closing ∧ complete (.object fields) frames = .ok next) := by
  unfold endField at h
  -- Any other character is a fault, so two of the three branches are left.
  split at h
  · next hc => exact .inl ⟨hc, (Except.ok.inj h).symm⟩
  · split at h
    · next hc => exact .inr ⟨hc, h⟩
    · cases h

/-- A bind that gives a result has a first part that does. -/
theorem exists_of_bind_ok {ε α β : Type} {x : Except ε α} {f : α → Except ε β} {b : β}
    (h : (x >>= f) = .ok b) : ∃ a, x = .ok a ∧ f a = .ok b := by
  cases x with
  | error e => cases h
  | ok a => exact ⟨a, rfl, h⟩

/-- A step from inside a container that goes on is one of the list. -/
theorem Step.of_place_step {limit offset : Nat} {c : Char} {place : Place} {frames : List Frame}
    {next : State} (h : place.step limit frames offset c = .ok next) :
    Step limit offset c (.inside place frames) next := by
  -- The branches of the step in their order. Those that refuse the character are out.
  cases place with
  | fieldStart opened fields =>
    simp only [Place.step] at h
    split at h
    · next blank => cases h; exact .fieldBlank blank
    · next solid =>
      split at h
      · next hclose =>
        -- An object may close here only if no field was read, so not behind a comma.
        obtain ⟨char, rfl⟩ := hclose
        exact .emptyClose char h
      · split at h
        · cases h
        · next plain =>
          cases h
          exact .nameBegin (by simpa using solid) (by simpa using plain)
  | fieldName opened fields start letters =>
    simp only [Place.step] at h
    split at h
    · split at h
      · next b hb =>
        obtain ⟨room, rfl⟩ := openContainer_ok h
        exact .nameOpen b (eq_opening_of_ofOpening? hb) (by simpa using room)
      · -- No bracket opens, so the field is a leaf and joins the others before it ends.
        obtain ⟨fields', add, h⟩ := exists_of_bind_ok h
        rcases endField_ok h with ⟨char, rfl⟩ | ⟨char, hand⟩
        · exact .nameComma char add
        · exact .nameClose char add hand
    · next plain => cases h; exact .nameLetter (by simpa using plain)
  | fieldEnd opened fields =>
    simp only [Place.step] at h
    split at h
    · next blank => cases h; exact .endBlank blank
    · rcases endField_ok h with ⟨char, rfl⟩ | ⟨char, hand⟩
      · exact .endComma char
      · exact .endClose char hand
  | elementStart opened =>
    simp only [Place.step] at h
    split at h
    · next blank => cases h; exact .elementBlank blank
    · split at h
      · next char => exact .elementNone char h
      · split at h
        · next b hb =>
          obtain ⟨room, rfl⟩ := openContainer_ok h
          exact .elementOpen b (eq_opening_of_ofOpening? hb) (by simpa using room)
        · cases h
  | elementEnd opened element =>
    simp only [Place.step] at h
    split at h
    · next blank => cases h; exact .closeBlank blank
    · split at h
      · next char => exact .elementClose char h
      · cases h

/-- A step that goes on is one of the list. -/
theorem Step.of_step {limit offset : Nat} {c : Char} {state next : State}
    (h : state.step limit offset c = .ok next) : Step limit offset c state next := by
  cases state with
  | start =>
    simp only [State.step] at h
    split at h
    · next blank => cases h; exact .startBlank blank
    · split at h
      · next b hb =>
        obtain ⟨room, rfl⟩ := openContainer_ok h
        exact .startOpen b (eq_opening_of_ofOpening? hb) room
      · cases h
  | inside place frames => exact .of_place_step h
  | done shape =>
    simp only [State.step] at h
    split at h
    · next blank => cases h; exact .doneBlank blank
    · cases h

/-- What every step keeps holds of the state behind a text. The invariant speaks of the text read
so far and of the state. -/
theorem State.run_invariant {limit : Nat} {invariant : List Char → State → Prop}
    (keep : ∀ {cs : List Char} {c : Char} {offset : Nat} {state next : State},
      Step limit offset c state next → invariant cs state → invariant (cs ++ [c]) next)
    {cs ds : List Char} {offset : Nat} {state next : State} (holds : invariant cs state)
    (h : state.run limit (locate offset ds) = .ok next) : invariant (cs ++ ds) next := by
  induction ds generalizing cs offset state with
  | nil =>
    cases h
    rw [List.append_nil]
    exact holds
  | cons d ds ih =>
    -- The letter moves from the text to come to the text read so far.
    obtain ⟨middle, hstep, hrest⟩ := exists_of_bind_ok h
    have hmiddle := ih (keep (.of_step hstep) holds) hrest
    rw [List.append_assoc] at hmiddle
    exact hmiddle

end Shape.Reader

end DocShape
