import DocShape.Proofs.Shape.Limits
import DocShape.Proofs.Shape.Refusals
import Mathlib.Order.Bounds.Defs

/-!
# `DocShape.Proofs.Shape.Nesting`: open brackets

`openBrackets` goes through a text and keeps the brackets that are open, each with its offset. It
knows nothing of shapes. Still it is what the reader has in its frames
(`Reaches.openBrackets_eq`), so the number of containers that the reader counts is the number of
brackets that are open in the text, and never more than the limit (`Reaches.peak_le`).

So the limit is exact. `parse_at_limit` compares two limits: what is read under the smaller one is
read under the greater one, a fault other than too deep nesting is the same, and a shape is lost
exactly if it is deeper than the smaller limit. The fault is then at the leftmost bracket that
opens too much (`OpensFirst`).
-/

set_option autoImplicit false

namespace DocShape

namespace Grammar

open Shape.Reader (locate locate_append textSize)

/-- The brackets that are open behind a character, innermost first, from those in front of it. -/
def track (opens : List (Bracket × Nat)) (x : Nat × Char) : List (Bracket × Nat) :=
  match Bracket.ofOpening? x.2 with
  | some b => (b, x.1) :: opens
  | none =>
    if x.2 = Bracket.brace.closing ∨ x.2 = Bracket.square.closing then opens.tail else opens

/-- The brackets that are open at the end of a text with their offsets, innermost first. -/
def openBrackets (cs : List Char) : List (Bracket × Nat) :=
  (locate 0 cs).foldl track []

/-- The number of brackets that are open at the end of a text. -/
def openAfter (cs : List Char) : Nat :=
  cs.foldl shift 0

/-- One more character opens a bracket, closes one, or does neither. -/
theorem openBrackets_concat (cs : List Char) (c : Char) :
    openBrackets (cs ++ [c]) = track (openBrackets cs) (textSize cs, c) := by
  unfold openBrackets
  rw [locate_append, List.foldl_append, Nat.zero_add]
  rfl

/-- One more character changes the count by what it opens or closes. -/
theorem openAfter_concat (cs : List Char) (c : Char) :
    openAfter (cs ++ [c]) = shift (openAfter cs) c := by
  unfold openAfter
  rw [List.foldl_append]
  rfl

/-- An opening bracket is the innermost one from then on. -/
theorem track_opening (opens : List (Bracket × Nat)) (offset : Nat) (b : Bracket) :
    track opens (offset, b.opening) = (b, offset) :: opens := by
  simp [track]

/-- A closing bracket closes the innermost one. -/
theorem track_closing (first : Bracket × Nat) (opens : List (Bracket × Nat)) (offset : Nat)
    (b : Bracket) : track (first :: opens) (offset, b.closing) = opens := by
  cases b <;> rfl

/-- A character that is neither a bracket nor a comma opens and closes nothing. -/
theorem track_of_plain {c : Char} (plain : isDelimiter c = false) (opens : List (Bracket × Nat))
    (offset : Nat) : track opens (offset, c) = opens := by
  simp only [isDelimiter, Bool.or_eq_false_iff, decide_eq_false_iff_not] at plain
  obtain ⟨⟨⟨⟨hopen, hclose⟩, hopen'⟩, hclose'⟩, -⟩ := plain
  simp [track, Bracket.ofOpening?, hopen, hclose, hopen', hclose']

/-- Keeping brackets and counting them go the same way. -/
theorem length_track (opens : List (Bracket × Nat)) (offset : Nat) (c : Char) :
    (track opens (offset, c)).length = shift opens.length c := by
  cases hopen : Bracket.ofOpening? c with
  | some b =>
    rw [Shape.Reader.eq_opening_of_ofOpening? hopen, track_opening, shift_opening]
    rfl
  | none =>
    have hother : ¬(c = Bracket.brace.opening ∨ c = Bracket.square.opening) := by
      rintro (rfl | rfl)
      · rw [Bracket.ofOpening?_opening] at hopen
        cases hopen
      · rw [Bracket.ofOpening?_opening] at hopen
        cases hopen
    simp only [track, shift, hopen, if_neg hother]
    -- A closing bracket where none is open takes nothing away on either side.
    split
    · exact List.length_tail
    · rfl

/-- As many brackets are open as are counted. -/
theorem length_openBrackets (cs : List Char) : (openBrackets cs).length = openAfter cs := by
  induction cs using List.reverseRecOn with
  | nil => rfl
  | append_singleton cs c ih => rw [openBrackets_concat, openAfter_concat, length_track, ih]

/-- An open bracket stands where its offset says. -/
theorem exists_of_mem_openBrackets {cs : List Char} {bracket : Bracket × Nat}
    (h : bracket ∈ openBrackets cs) :
    ∃ front back, cs = front ++ bracket.1.opening :: back ∧ textSize front = bracket.2 := by
  induction cs using List.reverseRecOn with
  | nil => cases h
  | append_singleton cs c ih =>
    rw [openBrackets_concat, track] at h
    split at h
    · next b hopen =>
      -- The bracket is the one that opens here, or it was open before.
      rcases List.mem_cons.mp h with rfl | hmem
      · have hchar : c = b.opening := Shape.Reader.eq_opening_of_ofOpening? hopen
        exact ⟨cs, [], by rw [hchar], rfl⟩
      · obtain ⟨front, back, rfl, hoffset⟩ := ih hmem
        exact ⟨front, back ++ [c], by simp, hoffset⟩
    · -- Whether or not a bracket closes here, this one was open before.
      have hmem : bracket ∈ openBrackets cs := by
        split at h
        · exact List.mem_of_mem_tail h
        · exact h
      obtain ⟨front, back, rfl, hoffset⟩ := ih hmem
      exact ⟨front, back ++ [c], by simp, hoffset⟩

/-- The peak of a text is the greatest number of brackets that are open behind some part of it. -/
theorem isGreatest_peak (level : Nat) (cs : List Char) :
    IsGreatest {count | ∃ front, front <+: cs ∧ front.foldl shift level = count}
      (peak level cs) := by
  induction cs generalizing level with
  | nil =>
    refine ⟨⟨[], List.prefix_rfl, rfl⟩, ?_⟩
    rintro _ ⟨front, hfront, rfl⟩
    rw [List.prefix_nil.mp hfront]
    exact Nat.le_refl level
  | cons c cs ih =>
    obtain ⟨⟨front, hfront, hcount⟩, hbound⟩ := ih (shift level c)
    constructor
    · -- The peak is reached at once or behind the first character.
      rcases Nat.le_total (peak (shift level c) cs) level with hle | hle
      · exact ⟨[], List.nil_prefix, (Nat.max_eq_left hle).symm⟩
      · refine ⟨c :: front, List.cons_prefix_cons.mpr ⟨rfl, hfront⟩, ?_⟩
        rw [List.foldl_cons, hcount]
        exact (Nat.max_eq_right hle).symm
    · -- No part of the text has more, whether it is empty or has the first character.
      rintro _ ⟨other, hother, rfl⟩
      cases other with
      | nil => exact Nat.le_max_left ..
      | cons d other =>
        obtain ⟨rfl, hrest⟩ := List.cons_prefix_cons.mp hother
        exact Nat.le_trans (hbound ⟨other, hrest, rfl⟩) (Nat.le_max_right ..)

/-- Behind no part of a text more brackets are open than its peak says. -/
theorem openAfter_le_peak {front cs : List Char} (h : front <+: cs) :
    openAfter front ≤ peak 0 cs :=
  (isGreatest_peak 0 cs).2 ⟨front, h, rfl⟩

/-- Behind `front` a text has the leftmost bracket that opens while `level` brackets are open. -/
structure OpensFirst (level : Nat) (cs front : List Char) : Prop where
  opens : ∃ b : Bracket, front ++ [b.opening] <+: cs
  openAfter_eq : openAfter front = level
  leftmost : ∀ (other : List Char) (b : Bracket), other ++ [b.opening] <+: cs →
    openAfter other = level → front.length ≤ other.length

/-- If no more brackets were open before, a bracket that opens then is the leftmost. -/
theorem OpensFirst.of_peak_le {level : Nat} {cs front : List Char} {b : Bracket}
    (opens : front ++ [b.opening] <+: cs) (count : openAfter front = level)
    (low : peak 0 front ≤ level) : OpensFirst level cs front where
  opens := ⟨b, opens⟩
  openAfter_eq := count
  leftmost other b' hother hcount := by
    by_contra hlt
    -- An earlier one would have taken the text in front over the level.
    have hlength : (other ++ [b'.opening]).length ≤ front.length := by
      rw [List.length_append, List.length_singleton]
      omega
    have hfront : front <+: cs := (List.prefix_append front [b.opening]).trans opens
    have hinside := List.prefix_of_prefix_length_le hother hfront hlength
    have hpeak := openAfter_le_peak hinside
    rw [openAfter_concat, hcount, shift_opening] at hpeak
    omega

end Grammar

namespace Shape

namespace Reader

open Grammar

/-- The bracket of a container that waits, and its offset. -/
def Frame.bracket : Frame → Bracket × Nat
  | .field opened _ _ _ => (.brace, opened)
  | .element opened => (.square, opened)

/-- The brackets of the open containers with their offsets, innermost first. -/
def State.brackets : State → List (Bracket × Nat)
  | .inside place frames => place.bracket :: frames.map Frame.bracket
  | _ => []

/-- The reader has as many brackets as open containers. -/
theorem State.length_brackets (state : State) : state.brackets.length = state.openCount := by
  cases state with
  | inside place frames => simp [State.brackets, State.openCount]
  | start => rfl
  | done shape => rfl

/-- A container that was opened last has the innermost bracket. -/
theorem brackets_behind (offset : Nat) (b : Bracket) (frames : List Frame) :
    (State.inside (.behind offset b) frames).brackets =
      (b, offset) :: frames.map Frame.bracket := by
  cases b <;> rfl

/-- What is left of the open brackets when a container is complete. -/
theorem brackets_of_complete {shape : Shape} {frames : List Frame} {next : State}
    (hand : complete shape frames = .ok next) : next.brackets = frames.map Frame.bracket := by
  match frames with
  | [] =>
    cases hand
    rfl
  | .field _ _ _ _ :: _ =>
    obtain ⟨fields, -, hnext⟩ := exists_of_bind_ok hand
    cases hnext
    rfl
  | .element _ :: _ =>
    cases hand
    rfl

/-- A step opens and closes what its character does. -/
theorem Step.brackets {limit offset : Nat} {c : Char} {state next : State}
    (h : Step limit offset c state next) : next.brackets = track state.brackets (offset, c) := by
  have hblank {c : Char} (blank : isBlank c = true) (opens : List (Bracket × Nat)) :
      track opens (offset, c) = opens :=
    track_of_plain (isDelimiter_of_isBlank blank) opens offset
  -- A closing bracket takes the innermost one away, and the shape goes to the next frame.
  have hclose {shape : Shape} {frames : List Frame} {next : State} (b : Bracket)
      (first : Bracket × Nat) (hand : complete shape frames = .ok next) :
      next.brackets = track (first :: frames.map Frame.bracket) (offset, b.closing) := by
    rw [track_closing, brackets_of_complete hand]
  cases h with
  | startBlank blank => exact (hblank blank _).symm
  | doneBlank blank => exact (hblank blank _).symm
  | fieldBlank blank => exact (hblank blank _).symm
  | endBlank blank => exact (hblank blank _).symm
  | elementBlank blank => exact (hblank blank _).symm
  | closeBlank blank => exact (hblank blank _).symm
  | nameBegin _ plain => exact (track_of_plain plain _ offset).symm
  | nameLetter plain => exact (track_of_plain plain _ offset).symm
  | startOpen b char =>
    rw [char, track_opening, brackets_behind]
    rfl
  | nameOpen b char =>
    rw [char, track_opening, brackets_behind]
    rfl
  | elementOpen b char =>
    rw [char, track_opening, brackets_behind]
    rfl
  | nameComma char =>
    rw [char]
    rfl
  | endComma char =>
    rw [char]
    rfl
  | emptyClose char hand =>
    rw [char]
    exact hclose .brace _ hand
  | nameClose char _ hand =>
    rw [char]
    exact hclose .brace _ hand
  | endClose char hand =>
    rw [char]
    exact hclose .brace _ hand
  | elementNone char hand =>
    rw [char]
    exact hclose .square _ hand
  | elementClose char hand =>
    rw [char]
    exact hclose .square _ hand

/-- The containers that are open for the reader are the brackets that are open in the text. -/
theorem Reaches.openBrackets_eq {limit : Nat} {cs : List Char} {state : State}
    (h : Reaches limit cs state) : openBrackets cs = state.brackets := by
  refine h.induction (motive := fun cs state => openBrackets cs = state.brackets) rfl ?_
  intro cs c state next _ hstep ih
  rw [openBrackets_concat, ih, hstep.brackets]

/-- Behind a text as many brackets are open as the reader counts containers. -/
theorem Reaches.openAfter_eq {limit : Nat} {cs : List Char} {state : State}
    (h : Reaches limit cs state) : openAfter cs = state.openCount := by
  rw [← length_openBrackets, h.openBrackets_eq, state.length_brackets]

/-- No more containers are open than fit. -/
theorem State.Fits.openCount_le {limit : Nat} {state : State} (fit : state.Fits limit) :
    state.openCount ≤ limit := by
  cases state with
  | start => exact Nat.zero_le limit
  | done shape => exact Nat.zero_le limit
  | inside place frames =>
    have hplace := fit.1
    show frames.length + 1 ≤ limit
    cases place with
    | fieldStart => exact Nat.le_trans (Nat.le_add_right ..) hplace.depth
    | fieldName => exact Nat.le_trans (Nat.le_add_right ..) hplace.depth
    | fieldEnd => exact Nat.le_trans (Nat.le_add_right ..) hplace.depth
    | elementStart => exact hplace
    | elementEnd => exact Nat.le_trans (Nat.le_add_right ..) hplace.2

/-- Nowhere in a text that was read so far are more brackets open than the limit allows. -/
theorem Reaches.peak_le {limit : Nat} {cs : List Char} {state : State}
    (h : Reaches limit cs state) : peak 0 cs ≤ limit := by
  refine h.induction (motive := fun cs _ => peak 0 cs ≤ limit) (Nat.zero_le limit) ?_
  intro cs c state next before hstep ih
  -- The last character may reach the peak. The brackets open behind it are those of a state.
  have hbefore : openAfter cs ≤ limit := by
    rw [before.openAfter_eq]
    exact before.fits.openCount_le
  have hafter : shift (openAfter cs) c ≤ limit := by
    rw [before.openAfter_eq, ← state.length_brackets, ← length_track _ (textSize cs),
      ← hstep.brackets, next.length_brackets]
    exact (State.Fits.step hstep before.fits).openCount_le
  rw [peak_append]
  exact Nat.max_le.mpr ⟨ih, Nat.max_le.mpr ⟨hbefore, hafter⟩⟩

end Reader

open Grammar Reader

/-- A text that nests too deep does so under its own limit, at the leftmost bracket that opens one
container too many. -/
theorem opensFirst_of_tooDeep {source : String} {limit other offset : Nat}
    (h : Shape.parse source limit = .error (.tooDeep other offset)) :
    other = limit ∧ ∃ front, OpensFirst limit source.toList front ∧ textSize front = offset := by
  rcases exists_refusal h with
    ⟨front, c, back, state, hsplit, reaches, refused⟩ | ⟨state, -, hend⟩
  · cases Refusal.of_step refused with
    | deep b char full =>
      have hopen : front ++ [b.opening] <+: source.toList := ⟨back, by simp [hsplit, char]⟩
      have hcount : openAfter front = limit := by
        rw [reaches.openAfter_eq]
        exact Nat.le_antisymm reaches.fits.openCount_le full
      exact ⟨rfl, front, .of_peak_le hopen hcount reaches.peak_le, rfl⟩
  · cases Unfinished.of_finish hend

/-- The nesting limit is exact and changes nothing else. A shape that is read under a limit is
read under every greater one, and so is a fault, unless the fault is that the text nests too deep.
A text that can be read under the greater limit can be read under the smaller one exactly if its
shape is no deeper, and otherwise the fault is at the leftmost bracket that opens while as many as
the smaller limit are open. The depth of its shape is the greatest number of brackets that are
open at once. -/
theorem parse_at_limit (source : String) {small large : Nat} (le : small ≤ large) :
    (∀ shape, Shape.parse source small = .ok shape → Shape.parse source large = .ok shape) ∧
    (∀ error, Shape.parse source small = .error error →
      (∀ limit offset, error ≠ .tooDeep limit offset) →
      Shape.parse source large = .error error) ∧
    ∀ shape, Shape.parse source large = .ok shape →
      ((∃ found, Shape.parse source small = .ok found) ↔ shape.depth ≤ small) ∧
      (small < shape.depth → ∃ front, OpensFirst small source.toList front ∧
        Shape.parse source small =
          .error (.tooDeep small (String.ofList front).utf8ByteSize)) ∧
      IsGreatest {count | ∃ front, front <+: source.toList ∧ openAfter front = count}
        shape.depth := by
  have hsame := parse_of_le le source
  refine ⟨fun shape h => ?_, fun error h other => ?_, fun shape h =>
    ⟨⟨?_, fun fits => ?_⟩, ?_, ?_⟩⟩
  · rcases hsame with heq | ⟨offset, hdeep⟩
    · rw [← heq, h]
    · rw [h] at hdeep
      cases hdeep
  · rcases hsame with heq | ⟨offset, hdeep⟩
    · rw [← heq, h]
    · rw [h] at hdeep
      exact absurd (Except.error.inj hdeep) (other small offset)
  · rintro ⟨found, hfound⟩
    -- A text has one shape, whatever limit it is read under.
    obtain ⟨root, -, fits⟩ := parse_eq_ok_iff.mp hfound
    rwa [← root.peak_eq, (parse_eq_ok_iff.mp h).1.peak_eq] at fits
  · exact ⟨shape, parse_of_depth_le h fits⟩
  · -- A shape that is lost is lost for its depth, so there is a first bracket that is too deep.
    intro deeper
    obtain ⟨offset, hdeep⟩ := parse_of_deeper h deeper
    obtain ⟨-, front, first, rfl⟩ := opensFirst_of_tooDeep hdeep
    rw [← utf8ByteSize_ofList] at hdeep
    exact ⟨front, first, hdeep⟩
  · rw [← (parse_eq_ok_iff.mp h).1.peak_eq]
    exact isGreatest_peak 0 source.toList

/-- A text whose first name has a letter of two bytes. Two of its brackets open while two are
open, and the fault is at the left one of them. -/
theorem parse_at_limit_two :
    let source := "{é[{b}],c[[]]}"
    let shape : Shape := .object [.nested "é" (.arrayOf (.object [.leaf "b"])),
      .nested "c" (.arrayOf .emptyArray)]
    2 ≤ 3 ∧ Shape.parse source 3 = .ok shape ∧ 2 < shape.depth ∧
      (∃ front, OpensFirst 2 source.toList front ∧ (String.ofList front).utf8ByteSize = 4) ∧
      Shape.parse source 2 = .error (.tooDeep 2 4) := by
  intro source shape
  have hread : Shape.parse source 3 = .ok shape := by decide +kernel
  have hdeep : Shape.parse source 2 = .error (.tooDeep 2 4) := by decide +kernel
  obtain ⟨-, -, hshape⟩ := parse_at_limit source (by decide : 2 ≤ 3)
  obtain ⟨-, hfault, -⟩ := hshape shape hread
  obtain ⟨front, first, hfront⟩ := hfault (by decide +kernel)
  rw [hdeep] at hfront
  have hsize := (SyntaxError.tooDeep.inj (Except.error.inj hfront)).2
  exact ⟨by decide, hread, by decide +kernel, ⟨front, first, hsize.symm⟩, hdeep⟩

end Shape

end DocShape
