import DocShape.Proofs.Shape.Completeness
import DocShape.Proofs.Shape.Relocation
import DocShape.Proofs.Shape.Strip

/-!
# `DocShape.Proofs.Shape.Whitespace`: white space around delimiters says nothing

A text and what is left of it when stripped are read alike (`Shape.parse_stripText`). If one of
them is a text of a shape so is the other, of the same shape, and the stripped text is the
canonical one. If one has a fault the other has the same fault, at the same character.

Two steps lead there. White space that says nothing leaves the reader where it is, or adds to the
end of a name, from where it is trimmed later; so a run over what is kept, with each character at
its old place, ends the same (`State.run_strip`). Then the characters move together, and offsets
are only passed on (`State.Relocated.run`).
-/

set_option autoImplicit false

namespace DocShape

open Grammar

namespace Shape.Reader

/-! ### Characters that are left out -/

/-- The reader is not inside a name. -/
def State.OutsideNames : State → Prop
  | .inside (.fieldName ..) _ => False
  | _ => True

/-- Inside a name there is only one place to be. -/
theorem exists_of_not_outsideNames {state : State} (h : ¬state.OutsideNames) :
    ∃ opened fields start letters frames,
      state = .inside (.fieldName opened fields start letters) frames := by
  unfold State.OutsideNames at h
  split at h
  · exact ⟨_, _, _, _, _, rfl⟩
  · exact absurd trivial h

/-- White space outside of names leaves the reader where it is. -/
theorem State.OutsideNames.step_of_blank {state : State} (outside : state.OutsideNames)
    (limit offset : Nat) {c : Char} (hc : isBlank c = true) :
    state.step limit offset c = .ok state := by
  cases state with
  | start => simp [State.step, hc]
  | done shape => simp [State.step, hc]
  | inside place frames =>
    refine blank_stays ?_ offset c hc
    rintro opened fields start letters rfl
    exact outside

/-- Behind an opening bracket no name has begun. -/
theorem outsideNames_behind (offset : Nat) (b : Bracket) (frames : List Frame) :
    (State.inside (.behind offset b) frames).OutsideNames := by
  cases b <;> trivial

/-- Where a container ends, no name is being read. -/
theorem outsideNames_of_complete {shape : Shape} {frames : List Frame} {next : State}
    (hand : complete shape frames = .ok next) : next.OutsideNames := by
  match frames with
  | [] =>
    cases hand
    trivial
  | .field _ fields _ _ :: _ =>
    obtain ⟨fields', -, hnext⟩ := exists_of_bind_ok hand
    cases hnext
    trivial
  | .element _ :: _ =>
    cases hand
    trivial

/-- A delimiter ends every name. -/
theorem outsideNames_of_step {limit offset : Nat} {c : Char} {state next : State}
    (hc : isDelimiter c = true) (h : state.step limit offset c = .ok next) :
    next.OutsideNames := by
  -- Only letters begin a name or go on with one, and a delimiter is no letter.
  cases Step.of_step h with
  | startBlank => trivial
  | startOpen b => exact outsideNames_behind offset b _
  | doneBlank => trivial
  | fieldBlank => trivial
  | emptyClose _ hand => exact outsideNames_of_complete hand
  | nameBegin _ plain =>
    rw [hc] at plain
    cases plain
  | nameLetter plain =>
    rw [hc] at plain
    cases plain
  | nameOpen b => exact outsideNames_behind offset b _
  | nameComma => trivial
  | nameClose _ _ hand => exact outsideNames_of_complete hand
  | endBlank => trivial
  | endComma => trivial
  | endClose _ hand => exact outsideNames_of_complete hand
  | elementBlank => trivial
  | elementNone _ hand => exact outsideNames_of_complete hand
  | elementOpen b => exact outsideNames_behind offset b _
  | closeBlank => trivial
  | elementClose _ hand => exact outsideNames_of_complete hand

/-- White space at the end of a name does not belong to it. -/
theorem nameOf_cons_of_blank {c : Char} (hc : isBlank c = true) (letters : List Char) :
    nameOf (c :: letters) = nameOf letters := by
  unfold nameOf
  rw [trimEnd_cons_of_blank hc]

/-- White space behind a name makes no difference to what ends the name. -/
theorem run_fieldName_cons {limit opened start : Nat} {fields : List Field} {letters : List Char}
    {frames : List Frame} {c : Char} (hc : isBlank c = true) {xs : List (Nat × Char)}
    (ends : xs = [] ∨ ∃ x rest, xs = x :: rest ∧ isDelimiter x.2 = true) :
    ((State.inside (.fieldName opened fields start (c :: letters)) frames).run limit xs >>=
        State.finish) =
      ((State.inside (.fieldName opened fields start letters) frames).run limit xs >>=
        State.finish) := by
  rcases ends with rfl | ⟨⟨offset, d⟩, rest, rfl, hd⟩
  · simp only [State.run, bind, Except.bind, State.finish, Place.finish, nameOf_cons_of_blank hc]
  · have hdelimiter : isDelimiter d = true := hd
    simp only [State.run, State.step, Place.step, hdelimiter, if_true, nameOf_cons_of_blank hc]

/-- A run over a text ends as one over what is kept of it when stripped. In front of an edge the
reader must not be inside a name. -/
theorem State.run_strip (limit : Nat) (xs : List (Nat × Char)) (before : Option Char)
    (state : State) (outside : isEdge before = true → state.OutsideNames) :
    (state.run limit (strip Prod.snd before xs) >>= State.finish) =
      (state.run limit xs >>= State.finish) := by
  induction xs generalizing before state with
  | nil => rfl
  | cons x xs ih =>
    obtain ⟨offset, c⟩ := x
    -- What is kept is read in both runs, and the rest follows from the state behind it.
    have hboth (before' : Option Char)
        (h : ∀ next, state.step limit offset c = .ok next → isEdge before' = true →
          next.OutsideNames) :
        (state.run limit ((offset, c) :: strip Prod.snd before' xs) >>= State.finish) =
          (state.run limit ((offset, c) :: xs) >>= State.finish) := by
      simp only [State.run, bind_assoc]
      cases hstep : state.step limit offset c with
      | error error => rfl
      | ok next => exact ih before' next (h next hstep)
    rw [strip]
    by_cases hc : isBlank c = true
    · rw [if_pos hc]
      split
      · next hedge =>
        by_cases hstate : state.OutsideNames
        · -- Outside of names the white space is passed over.
          rw [ih before state outside]
          simp only [State.run, hstate.step_of_blank limit offset hc]
          rfl
        · -- Inside a name the edge is behind the white space, and the name is trimmed there.
          have hbefore : isEdge before = false := by
            by_contra hne
            exact hstate (outside (by simpa using hne))
          rw [hbefore, Bool.false_or] at hedge
          obtain ⟨opened, fields, begins, letters, frames, rfl⟩ :=
            exists_of_not_outsideNames hstate
          have hplain := isDelimiter_of_isBlank hc
          have hstep : (State.inside (.fieldName opened fields begins letters) frames).step limit
              offset c =
                .ok (.inside (.fieldName opened fields begins (c :: letters)) frames) := by
            simp [State.step, Place.step, hplain]
          have hnext := ih before
            (.inside (.fieldName opened fields begins (c :: letters)) frames)
            (by rw [hbefore]; exact fun h => absurd h Bool.false_ne_true)
          rw [run_fieldName_cons hc (strip_of_isEdge_firstSolid Prod.snd hedge)] at hnext
          rw [hnext]
          simp only [State.run, hstep]
          rfl
      · next hinside =>
        -- Between two letters it is kept. Then there is no edge in front, so nothing to show.
        refine hboth before fun next _ hedge => ?_
        rw [hedge, Bool.true_or] at hinside
        exact absurd rfl hinside
    · -- A delimiter is the next edge, and it leaves the reader outside of names.
      rw [if_neg hc]
      exact hboth (some c) fun next hstep hedge => outsideNames_of_step hedge hstep

end Shape.Reader

/-! ### Characters that move together -/

namespace Shape

open Reader

/-- Two offsets name one character that is kept when a text is stripped: the first where it stands
in the text, the second where it stands in the stripped text. -/
def SameCharacter (source : String) (offset offset' : Nat) : Prop :=
  ∃ (position : Nat) (c : Char),
    (strip Prod.snd none (locate 0 source.toList))[position]? = some (offset, c) ∧
      (locate 0 (stripText source).toList)[position]? = some (offset', c)

/-- Of two texts with the same characters, the characters at one position are the same. -/
theorem forall₂_of_map_snd_eq {xs ys : List (Nat × Char)}
    (h : xs.map Prod.snd = ys.map Prod.snd) :
    List.Forall₂ (fun x y =>
      (∃ (position : Nat) (c : Char), xs[position]? = some (x.1, c) ∧
        ys[position]? = some (y.1, c)) ∧ x.2 = y.2) xs ys := by
  have hlength : xs.length = ys.length := by simpa using congrArg List.length h
  refine List.forall₂_iff_get.mpr ⟨hlength, fun position hx hy => ?_⟩
  have hsame : xs[position].2 = ys[position].2 := by
    have hat := congrArg (·[position]?) h
    simpa [hx, hy] using hat
  refine ⟨⟨position, xs[position].2, List.getElem?_eq_getElem hx, ?_⟩, hsame⟩
  rw [hsame]
  exact List.getElem?_eq_getElem hy

/-- The characters that are kept are those of the stripped text, one by one. -/
theorem forall₂_sameCharacter (source : String) :
    List.Forall₂ (fun x y => SameCharacter source x.1 y.1 ∧ x.2 = y.2)
      (strip Prod.snd none (locate 0 source.toList)) (locate 0 (stripText source).toList) := by
  refine forall₂_of_map_snd_eq ?_
  rw [map_strip, map_snd_locate, map_snd_locate, stripText, String.toList_ofList]

/-- A text and the stripped text are read alike. -/
theorem parse_alike (source : String) (limit : Nat) :
    EndsAlike (SameCharacter source) Eq (Shape.parse source limit)
      (Shape.parse (stripText source) limit) := by
  have hkept := State.run_strip limit (locate 0 source.toList) none .start fun _ => trivial
  have halike := @State.Relocated.run _ limit _ _ _ _ .start (forall₂_sameCharacter source)
  have hends := halike.bind fun _ _ => State.Relocated.finish
  rw [hkept] at hends
  exact hends

/-- Both are texts of one shape, or both have one fault at one character. -/
theorem parse_cases (source : String) (limit : Nat) :
    (∃ shape, Shape.parse source limit = .ok shape ∧
      Shape.parse (stripText source) limit = .ok shape) ∨
    ∃ error error', Shape.parse source limit = .error error ∧
      Shape.parse (stripText source) limit = .error error' ∧
      error.Relocated (SameCharacter source) error' := by
  have halike := parse_alike source limit
  generalize Shape.parse source limit = result at halike ⊢
  generalize Shape.parse (stripText source) limit = result' at halike ⊢
  cases halike with
  | ok hshape => exact .inl ⟨_, rfl, by rw [hshape]⟩
  | error same => exact .inr ⟨_, _, rfl, rfl, same⟩

/-- What is read stays readable when stripped. -/
theorem parse_stripText_of_parse {source : String} {limit : Nat} {shape : Shape}
    (parsed : Shape.parse source limit = .ok shape) :
    Shape.parse (stripText source) limit = .ok shape := by
  rcases parse_cases source limit with ⟨_, hsource, hstripped⟩ | ⟨_, _, hsource, -, -⟩
  · rw [hstripped, ← hsource, parsed]
  · rw [hsource] at parsed
    cases parsed

/-- Stripping a text that can be read leaves the canonical text of its shape. -/
theorem stripText_of_parse {source : String} {limit : Nat} {shape : Shape}
    (parsed : Shape.parse source limit = .ok shape) : stripText source = shape.text := by
  rw [stripText, (sound_of_parse parsed).1.strip_eq]
  rfl

example : stripText " { first  name , tags [ ] } " = "{first  name,tags[]}" := by decide

/-- White space around delimiters says nothing. A text is read as a shape exactly if the stripped
text is, and the stripped text is then the canonical text of the shape. A text has a fault exactly
if the stripped text has it, at the same character. So two texts are read as the same shape
exactly if they are the same when stripped. -/
theorem parse_stripText (source : String) (limit : Nat) :
    (∀ shape, Shape.parse source limit = .ok shape ↔
      Shape.parse (stripText source) limit = .ok shape) ∧
    (∀ shape, Shape.parse source limit = .ok shape → stripText source = shape.text) ∧
    (∀ error, Shape.parse source limit = .error error →
      ∃ error', Shape.parse (stripText source) limit = .error error' ∧
        error.Relocated (SameCharacter source) error') ∧
    (∀ error', Shape.parse (stripText source) limit = .error error' →
      ∃ error, Shape.parse source limit = .error error ∧
        error.Relocated (SameCharacter source) error') ∧
    (∀ other otherLimit shape otherShape, Shape.parse source limit = .ok shape →
      Shape.parse other otherLimit = .ok otherShape →
      (shape = otherShape ↔ stripText source = stripText other)) := by
  refine ⟨fun shape => ⟨parse_stripText_of_parse, fun h => ?_⟩, fun shape => stripText_of_parse,
    fun error h => ?_, fun error' h => ?_, ?_⟩
  -- Either both texts are read or both have a fault, so each of the four directions has one
  -- case that is left.
  · rcases parse_cases source limit with ⟨_, hsource, hstripped⟩ | ⟨_, _, -, hstripped, -⟩
    · rw [hsource, ← hstripped, h]
    · rw [hstripped] at h
      cases h
  · rcases parse_cases source limit with
      ⟨_, hsource, -⟩ | ⟨fault, fault', hsource, hstripped, same⟩
    · rw [hsource] at h
      cases h
    · rw [hsource] at h
      cases h
      exact ⟨fault', hstripped, same⟩
  · rcases parse_cases source limit with
      ⟨_, -, hstripped⟩ | ⟨fault, fault', hsource, hstripped, same⟩
    · rw [hstripped] at h
      cases h
    · rw [hstripped] at h
      cases h
      exact ⟨fault, hsource, same⟩
  · intro other otherLimit shape otherShape parsed otherParsed
    have htext := stripText_of_parse parsed
    have hotherText := stripText_of_parse otherParsed
    constructor
    · intro heq
      rw [htext, hotherText, heq]
    · -- The canonical text is a text of both shapes, and the grammar names one at most.
      intro heq
      rw [htext, hotherText] at heq
      have hroot := (sound_of_parse (parse_stripText_of_parse parsed)).1
      have hother := (sound_of_parse (parse_stripText_of_parse otherParsed)).1
      rw [htext, heq] at hroot
      rw [hotherText] at hother
      exact hroot.unique hother

end Shape

end DocShape
