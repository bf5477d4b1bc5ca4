import DocShape.Proofs.Shape.Steps

/-!
# `DocShape.Proofs.Shape.Soundness`: what the reader accepts is a text of its shape

Two invariants of the reader, each kept by every step and so by a run over any text:

* `StateText` says how the text read so far is made of pieces of the grammar. Each open container
  owns the piece from its opening bracket on, and the pieces of the containers around it stand in
  front. When a container closes, its piece becomes the text of a shape.
* `State.Fits` says that the fields collected so far have distinct names and that no shape reaches
  below the limit, counted from the level it stands on.

`sound_of_parse` is what the two say of a whole text.
-/

set_option autoImplicit false

namespace DocShape

namespace Shape

namespace Reader

open Grammar

/-! ### The text read so far -/

/-- The text of an object up to the place where a field may start. -/
inductive FrontText : List Field → List Char → Prop where
  | first : FrontText [] [Bracket.brace.opening]
  | next {cs : List Char} {fields : List Field} (inner : Fields cs fields) :
    FrontText fields (Bracket.brace.opening :: (cs ++ [',']))

/-- The letters of a name that has begun, last letter first. -/
structure NameLetters (letters : List Char) : Prop where
  plain : ∀ c ∈ letters, isDelimiter c = false
  begins : ∃ c tail, letters.reverse = c :: tail ∧ isBlank c = false

/-- The text of the innermost open container. -/
inductive PlaceText : Place → List Char → Prop where
  | fieldStart {opened : Nat} {fields : List Field} {front ws : List Char}
    (earlier : FrontText fields front) (blank : Blanks ws) :
    PlaceText (.fieldStart opened fields) (front ++ ws)
  | fieldName {opened start : Nat} {fields : List Field} {front ws letters : List Char}
    (earlier : FrontText fields front) (blank : Blanks ws) (name : NameLetters letters) :
    PlaceText (.fieldName opened fields start letters) (front ++ ws ++ letters.reverse)
  | fieldEnd {opened : Nat} {fields : List Field} {cs : List Char} (inner : Fields cs fields) :
    PlaceText (.fieldEnd opened fields) (Bracket.brace.opening :: cs)
  | elementStart {opened : Nat} {ws : List Char} (blank : Blanks ws) :
    PlaceText (.elementStart opened) (Bracket.square.opening :: ws)
  | elementEnd {opened : Nat} {element : Shape} {before cs after : List Char}
    (blank : Blanks before) (inner : Node cs element) (blank' : Blanks after) :
    PlaceText (.elementEnd opened element) (Bracket.square.opening :: (before ++ cs ++ after))

/-- The text of a container up to the shape inside it that is being read. -/
inductive FrameText : Frame → List Char → Prop where
  | field {opened start : Nat} {fields : List Field} {front ws letters : List Char}
    (earlier : FrontText fields front) (blank : Blanks ws) (name : NameLetters letters) :
    FrameText (.field opened fields start (nameOf letters)) (front ++ ws ++ letters.reverse)
  | element {opened : Nat} {ws : List Char} (blank : Blanks ws) :
    FrameText (.element opened) (Bracket.square.opening :: ws)

/-- The text in front of the innermost open container. -/
inductive FramesText : List Frame → List Char → Prop where
  | outermost {ws : List Char} (blank : Blanks ws) : FramesText [] ws
  | within {frame : Frame} {frames : List Frame} {cs ds : List Char}
    (outer : FramesText frames ds) (inner : FrameText frame cs) :
    FramesText (frame :: frames) (ds ++ cs)

/-- The text that leads to a state. -/
inductive StateText : List Char → State → Prop where
  | start {ws : List Char} (blank : Blanks ws) : StateText ws .start
  | inside {place : Place} {frames : List Frame} {cs ds : List Char}
    (outer : FramesText frames ds) (inner : PlaceText place cs) :
    StateText (ds ++ cs) (.inside place frames)
  | done {cs : List Char} {shape : Shape} (root : Root cs shape) : StateText cs (.done shape)

namespace NameLetters

variable {letters : List Char}

/-- A name begins with a letter that is neither white space nor a delimiter. -/
theorem singleton {c : Char} (solid : isBlank c = false) (plain : isDelimiter c = false) :
    NameLetters [c] :=
  ⟨by simpa using plain, c, [], rfl, solid⟩

/-- A name goes on with every character that is no delimiter. -/
theorem cons {c : Char} (name : NameLetters letters) (plain : isDelimiter c = false) :
    NameLetters (c :: letters) := by
  obtain ⟨hplain, d, tail, hreverse, solid⟩ := name
  refine ⟨List.forall_mem_cons.mpr ⟨plain, hplain⟩, d, tail ++ [c], ?_, solid⟩
  rw [List.reverse_cons, hreverse, List.cons_append]

/-- The name is its letters in order, trimmed. -/
theorem nameOf_eq (name : NameLetters letters) :
    nameOf letters = String.ofList (trim letters.reverse) := by
  obtain ⟨-, c, tail, hreverse, solid⟩ := name
  rw [hreverse, trim_cons_of_solid solid, ← hreverse, List.reverse_reverse]
  rfl

/-- The letters of a name are a raw name of the grammar. -/
theorem rawName (name : NameLetters letters) : RawName letters.reverse where
  plain c hc := name.plain c (List.mem_reverse.mp hc)
  solid h := by
    obtain ⟨-, c, tail, hreverse, solid⟩ := name
    have hblank := trim_eq_nil_iff.mp h c (by simp [hreverse])
    rw [solid] at hblank
    cases hblank

end NameLetters

/-- The text up to the end of a field. -/
theorem FrontText.field {fields : List Field} {front cs : List Char} {field : Field}
    (earlier : FrontText fields front) (last : Padded cs field) :
    ∃ ds, front ++ cs = Bracket.brace.opening :: ds ∧ Fields ds (fields ++ [field]) := by
  cases earlier with
  | first => exact ⟨cs, rfl, .one last⟩
  | @next ds _ inner =>
    exact ⟨ds ++ ',' :: cs, by simp, inner.snoc last⟩

/-- A field without structure, between the white space in front of it and its delimiter. -/
theorem NameLetters.padded_leaf {letters ws : List Char} (name : NameLetters letters)
    (blank : Blanks ws) : Padded (ws ++ letters.reverse) (.leaf (nameOf letters)) := by
  have hpadded := Padded.mk blank (.leaf name.rawName) blanks_nil
  rw [List.append_nil] at hpadded
  rwa [name.nameOf_eq]

/-- A field with a shape, between the white space in front of it and the end of its shape. -/
theorem NameLetters.padded_nested {letters ws cs : List Char} {shape : Shape}
    (name : NameLetters letters) (blank : Blanks ws) (inner : Node cs shape) :
    Padded (ws ++ letters.reverse ++ cs) (.nested (nameOf letters) shape) := by
  have hpadded := Padded.mk blank (.nested name.rawName inner) blanks_nil
  rw [List.append_nil, ← List.append_assoc] at hpadded
  rwa [name.nameOf_eq]

/-- A field is added behind the others, if its name is new. -/
theorem addField_ok {fields fields' : List Field} {field : Field} {start : Nat}
    (h : addField fields field start = .ok fields') :
    (∀ earlier ∈ fields, earlier.name ≠ field.name) ∧ fields' = fields ++ [field] := by
  unfold addField at h
  split at h
  · cases h
  · next hnew => exact ⟨by simpa using hnew, (Except.ok.inj h).symm⟩

/-- A complete shape takes its place in the container around it. -/
theorem FramesText.complete {shape : Shape} {frames : List Frame} {cs ds : List Char}
    {next : State} (outer : FramesText frames ds) (node : Node cs shape)
    (hand : Reader.complete shape frames = .ok next) : StateText (ds ++ cs) next := by
  cases outer with
  | outermost blank =>
    cases hand
    have hroot := Root.mk blank node blanks_nil
    rw [List.append_nil] at hroot
    exact .done hroot
  | @within frame frames front es outer inner =>
    rw [List.append_assoc]
    cases inner with
    | field earlier blank name =>
      -- The name and the shape behind it are one field, which joins the fields in front.
      obtain ⟨fields', add, hnext⟩ := exists_of_bind_ok hand
      cases hnext
      obtain ⟨-, rfl⟩ := addField_ok add
      obtain ⟨inner, htext, hinner⟩ := earlier.field (name.padded_nested blank node)
      simp only [← List.append_assoc] at htext
      rw [htext]
      exact .inside outer (.fieldEnd hinner)
    | @element opened ws blank =>
      cases hand
      have helement := @PlaceText.elementEnd opened _ _ _ _ blank node blanks_nil
      rw [List.append_nil] at helement
      exact .inside outer helement

/-- The place behind an opening bracket. -/
theorem PlaceText.behind (offset : Nat) (b : Bracket) :
    PlaceText (.behind offset b) [b.opening] := by
  cases b with
  | brace => exact .fieldStart .first blanks_nil
  | square => exact .elementStart blanks_nil

/-- Every step keeps the text read so far made of pieces of the grammar. -/
theorem StateText.step {limit offset : Nat} {cs : List Char} {c : Char} {state next : State}
    (h : Step limit offset c state next) (text : StateText cs state) :
    StateText (cs ++ [c]) next := by
  have blank_snoc {ws : List Char} (hws : Blanks ws) (hc : isBlank c = true) :
      Blanks (ws ++ [c]) :=
    blanks_append.mpr ⟨hws, blanks_cons.mpr ⟨hc, blanks_nil⟩⟩
  cases text with
  | start blank =>
    cases h with
    | startBlank hc => exact .start (blank_snoc blank hc)
    | startOpen b char room =>
      subst char
      exact .inside (.outermost blank) (.behind offset b)
  | done root =>
    cases h with
    | doneBlank hc =>
      obtain ⟨blank, node, blank'⟩ := root
      rw [List.append_assoc]
      exact .done (.mk blank node (blank_snoc blank' hc))
  | inside outer inner =>
    rw [List.append_assoc]
    cases inner with
    | fieldStart earlier blank =>
      rw [List.append_assoc]
      cases h with
      | fieldBlank hc => exact .inside outer (.fieldStart earlier (blank_snoc blank hc))
      | emptyClose char hand =>
        -- Behind a comma there are fields, so only the first place can close.
        subst char
        cases earlier with
        | first => exact outer.complete (.emptyObject blank) hand
        | next inner => cases inner
      | nameBegin solid plain =>
        rw [← List.append_assoc _ _ [c]]
        exact .inside outer (.fieldName earlier blank (.singleton solid plain))
    | @fieldName opened start fields front ws letters earlier blank name =>
      cases h with
      | nameLetter plain =>
        rw [List.append_assoc, ← List.reverse_cons]
        exact .inside outer (.fieldName earlier blank (name.cons plain))
      | nameOpen b char room =>
        -- The piece read so far becomes a frame, and the bracket begins a piece of its own.
        subst char
        rw [← List.append_assoc]
        exact .inside (.within outer (.field earlier blank name)) (.behind offset b)
      | nameComma char add =>
        subst char
        obtain ⟨-, rfl⟩ := addField_ok add
        obtain ⟨inner, htext, hinner⟩ := earlier.field (name.padded_leaf blank)
        rw [List.append_assoc front, htext]
        have hplace := @PlaceText.fieldStart opened _ _ _ (.next hinner) blanks_nil
        rw [List.append_nil] at hplace
        exact .inside outer hplace
      | nameClose char add hand =>
        subst char
        obtain ⟨-, rfl⟩ := addField_ok add
        obtain ⟨inner, htext, hinner⟩ := earlier.field (name.padded_leaf blank)
        rw [List.append_assoc front, htext]
        exact outer.complete (.object hinner) hand
    | @fieldEnd opened fields inner_text inner =>
      cases h with
      | endBlank hc =>
        -- The blank is taken into the last field, so the text still ends with it.
        exact .inside outer (.fieldEnd (inner.append_blanks (blank_snoc blanks_nil hc)))
      | endComma char =>
        subst char
        have hplace := @PlaceText.fieldStart opened _ _ _ (.next inner) blanks_nil
        rw [List.append_nil] at hplace
        exact .inside outer hplace
      | endClose char hand =>
        subst char
        exact outer.complete (.object inner) hand
    | elementStart blank =>
      -- An array has nothing in front of its element but white space.
      cases h with
      | elementBlank hc => exact .inside outer (.elementStart (blank_snoc blank hc))
      | elementNone char hand =>
        subst char
        exact outer.complete (.emptyArray blank) hand
      | elementOpen b char room =>
        subst char
        rw [← List.append_assoc]
        exact .inside (.within outer (.element blank)) (.behind offset b)
    | @elementEnd opened element before text after blank inner blank' =>
      cases h with
      | closeBlank hc =>
        rw [List.cons_append, List.append_assoc]
        exact .inside outer (.elementEnd blank inner (blank_snoc blank' hc))
      | elementClose char hand =>
        subst char
        exact outer.complete (.arrayOf blank inner blank') hand

/-! ### The fields read so far -/

/-- Fields on a level have distinct names, in every object inside them too, and reach no deeper
than the limit. -/
structure FieldsFit (limit level : Nat) (fields : List Field) : Prop where
  nodup : (fields.map Field.name).Nodup
  inside : Field.EachInside (fun fields => (fields.map Field.name).Nodup) fields
  depth : level + Field.deepest fields ≤ limit

/-- What a place holds fits on its level. -/
def Place.Fits (limit level : Nat) : Place → Prop
  | .fieldStart _ fields => FieldsFit limit level fields
  | .fieldName _ fields _ _ => FieldsFit limit level fields
  | .fieldEnd _ fields => FieldsFit limit level fields
  | .elementStart _ => level ≤ limit
  | .elementEnd _ element => element.DistinctNames ∧ level + element.depth ≤ limit

/-- What frames hold fits on their levels. The outermost stands on level one. -/
def FramesFit (limit : Nat) : List Frame → Prop
  | [] => True
  | .field _ fields _ _ :: outer =>
    FieldsFit limit (outer.length + 1) fields ∧ FramesFit limit outer
  | .element _ :: outer => outer.length + 1 ≤ limit ∧ FramesFit limit outer

/-- What a state holds fits. -/
def State.Fits (limit : Nat) : State → Prop
  | .start => True
  | .inside place frames => place.Fits limit (frames.length + 1) ∧ FramesFit limit frames
  | .done shape => shape.DistinctNames ∧ shape.depth ≤ limit

/-- No fields fit wherever their object does. -/
theorem FieldsFit.nil {limit level : Nat} (room : level ≤ limit) : FieldsFit limit level [] :=
  ⟨List.nodup_nil, trivial, room⟩

/-- A field whose name is new fits behind the others if it fits itself. -/
theorem FieldsFit.add {limit level start : Nat} {fields fields' : List Field} {field : Field}
    (fit : FieldsFit limit level fields) (add : addField fields field start = .ok fields')
    (inside : Field.EachInside (fun fields => (fields.map Field.name).Nodup) [field])
    (depth : level + Field.deepest [field] ≤ limit) : FieldsFit limit level fields' := by
  obtain ⟨hnew, rfl⟩ := addField_ok add
  refine ⟨?_, Field.eachInside_append.mpr ⟨fit.inside, inside⟩, ?_⟩
  · rw [List.map_append, List.nodup_append]
    refine ⟨fit.nodup, List.pairwise_singleton .., ?_⟩
    intro name hname other hother
    obtain ⟨earlier, hmem, rfl⟩ := List.mem_map.mp hname
    rw [List.mem_singleton.mp hother]
    exact hnew earlier hmem
  · rw [Field.deepest_append]
    have := fit.depth
    omega

/-- A field without structure fits wherever its object does. -/
theorem FieldsFit.add_leaf {limit level start : Nat} {fields fields' : List Field}
    {name : String} (fit : FieldsFit limit level fields)
    (add : addField fields (.leaf name) start = .ok fields') : FieldsFit limit level fields' := by
  refine fit.add add trivial ?_
  have hdepth := fit.depth
  show level + 0 ≤ limit
  omega

/-- The object of fields that fit fits one level further out. -/
theorem FieldsFit.object {limit level : Nat} {fields : List Field}
    (fit : FieldsFit limit (level + 1) fields) :
    (Shape.object fields).DistinctNames ∧ level + (Shape.object fields).depth ≤ limit := by
  refine ⟨⟨fit.nodup, fit.inside⟩, ?_⟩
  have hdepth := fit.depth
  rw [Shape.depth]
  omega

/-- A complete shape fits in the container around it. -/
theorem FramesFit.complete {limit : Nat} {shape : Shape} {frames : List Frame} {next : State}
    (outer : FramesFit limit frames)
    (fit : shape.DistinctNames ∧ frames.length + shape.depth ≤ limit)
    (hand : Reader.complete shape frames = .ok next) : next.Fits limit := by
  obtain ⟨hdistinct, hdepth⟩ := fit
  match frames, outer with
  | [], _ =>
    cases hand
    refine ⟨hdistinct, ?_⟩
    rw [List.length_nil] at hdepth
    omega
  | .field _ fields _ _ :: frames, ⟨hfields, hframes⟩ =>
    -- The shape becomes a field one level further out.
    obtain ⟨fields', add, hnext⟩ := exists_of_bind_ok hand
    cases hnext
    refine ⟨hfields.add add ⟨hdistinct, trivial⟩ ?_, hframes⟩
    show frames.length + 1 + max shape.depth 0 ≤ limit
    rw [List.length_cons] at hdepth
    omega
  | .element _ :: frames, ⟨_, hframes⟩ =>
    cases hand
    exact ⟨⟨hdistinct, hdepth⟩, hframes⟩

/-- Behind an opening bracket nothing was collected yet. -/
theorem Place.fits_behind {limit level : Nat} (room : level ≤ limit) (offset : Nat)
    (b : Bracket) :
    (Place.behind offset b).Fits limit level := by
  cases b with
  | brace => exact .nil room
  | square => exact room

/-- Every step keeps what the state holds within its bounds. -/
theorem State.Fits.step {limit offset : Nat} {c : Char} {state next : State}
    (h : Step limit offset c state next) (fit : state.Fits limit) : next.Fits limit := by
  cases h with
  | startBlank => exact fit
  | startOpen b char room => exact ⟨Place.fits_behind room offset b, trivial⟩
  | doneBlank => exact fit
  | fieldBlank => exact fit
  | emptyClose char hand => exact fit.2.complete fit.1.object hand
  | nameBegin => exact fit
  | nameLetter => exact fit
  | nameOpen b char room => exact ⟨Place.fits_behind room offset b, fit⟩
  | nameComma char add => exact ⟨fit.1.add_leaf add, fit.2⟩
  | nameClose char add hand => exact fit.2.complete (fit.1.add_leaf add).object hand
  | endBlank => exact fit
  | endComma => exact fit
  | endClose char hand => exact fit.2.complete fit.1.object hand
  | elementBlank => exact fit
  | elementNone char hand => exact fit.2.complete ⟨distinctNames_emptyArray, fit.1⟩ hand
  | elementOpen b char room => exact ⟨Place.fits_behind room offset b, fit⟩
  | closeBlank => exact fit
  | @elementClose opened element frames next char hand =>
    -- The array is one deeper than its element and stands one level further out.
    refine fit.2.complete ⟨distinctNames_arrayOf.mpr fit.1.1, ?_⟩ hand
    have hdepth := fit.1.2
    rw [Shape.depth]
    omega

/-- A text that leads to a complete shape is a text of that shape, and the shape fits. -/
theorem State.sound_of_run {limit : Nat} {cs : List Char} {shape : Shape}
    (h : State.start.run limit (locate 0 cs) = .ok (.done shape)) :
    Root cs shape ∧ shape.DistinctNames ∧ shape.depth ≤ limit := by
  have htext : StateText cs (.done shape) := State.run_invariant StateText.step
    (StateText.start blanks_nil) h
  have hfits : (State.done shape).Fits limit :=
    @State.run_invariant limit (fun _ state => state.Fits limit)
      State.Fits.step [] cs 0 .start (.done shape) trivial h
  cases htext with
  | done root => exact ⟨root, hfits⟩

end Reader

/-- A shape that was read is that of the text, and it fits. -/
theorem sound_of_parse {source : String} {limit : Nat} {shape : Shape}
    (h : Shape.parse source limit = .ok shape) :
    Grammar.Root source.toList shape ∧ shape.DistinctNames ∧ shape.depth ≤ limit := by
  obtain ⟨state, hrun, hfinish⟩ := Reader.exists_of_bind_ok h
  cases state with
  | start => cases hfinish
  | inside place frames => cases hfinish
  | done found =>
    cases hfinish
    exact Reader.State.sound_of_run hrun

end Shape

end DocShape
