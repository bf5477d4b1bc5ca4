import DocShape.Proofs.Shape.Nesting

/-!
# `DocShape.Proofs.Shape.Faults`: what a fault says is so

Every fault but that of a text of white space stands at a character of the text. `TrueOf` says for
each kind of fault what has to be so at that character, and `fault_located` that it always is.

Most faults stand at the character that was refused. An open bracket was read long before, and so
was the name of a field whose shape ends only later. For brackets there is
`Reaches.openBrackets_eq`. For names, `Noted` is kept along the text: each name that the reader
holds has begun where it says, behind the fields that it is compared with.
-/

set_option autoImplicit false

namespace DocShape

namespace Grammar

/-- A field of a name begins behind `front`, and an earlier field of the same object has that name
too. What stands between the bracket of the object and the field are the earlier fields. -/
structure SecondField (name : String) (front back : List Char) : Prop where
  earlier : ∃ outer inner ws fields,
    front = outer ++ Bracket.brace.opening :: (inner ++ ',' :: ws) ∧ Fields inner fields ∧
      Blanks ws ∧ ∃ field ∈ fields, field.name = name
  begins : ∃ raw rest, back = raw ++ rest ∧ RawName raw ∧ String.ofList (trim raw) = name ∧
    ∀ d, rest.head? = some d → isDelimiter d = true
  spelled : name.toList <+: back

end Grammar

open Grammar in
/-- What a fault says of the text `front ++ c :: back`, where it stands at the character `c`. -/
def SyntaxError.TrueOf (limit : Nat) (front : List Char) (c : Char) (back : List Char) :
    SyntaxError → Prop
  | .empty => False
  | .unexpectedRoot found _ => c = found ∧ Blanks front ∧ ∀ b : Bracket, c ≠ b.opening
  | .emptyFieldName _ => isDelimiter c = true
  | .unclosed opening offset => c = opening ∧
      ∃ b : Bracket, b.opening = opening ∧
        (openBrackets (front ++ c :: back)).head? = some (b, offset)
  | .unexpected _ found _ => c = found
  | .trailingInput _ => ∃ shape, Shape.parse (String.ofList front) limit = .ok shape
  | .duplicateField name _ => SecondField name front (c :: back)
  | .tooDeep bound _ => bound = limit ∧ (∃ b : Bracket, c = b.opening) ∧ openAfter front = limit

/-- A text has a character at a byte offset, with a text in front of it and one behind it. -/
structure CharacterAt (source : String) (offset : Nat) (front : List Char) (c : Char)
    (back : List Char) : Prop where
  split : source.toList = front ++ c :: back
  size : (String.ofList front).utf8ByteSize = offset
  inside : offset < source.utf8ByteSize
  boundary : String.Pos.Raw.IsValid source ⟨offset⟩

open Shape.Reader in
/-- Where a text is split there is a character. -/
theorem CharacterAt.of_split {source : String} {front back : List Char} {c : Char}
    (split : source.toList = front ++ c :: back) :
    CharacterAt source (textSize front) front c back := by
  have hsource : source = String.ofList front ++ String.ofList (c :: back) := by
    rw [← String.ofList_append, ← split, String.ofList_toList]
  refine ⟨split, utf8ByteSize_ofList front, ?_, ?_⟩
  · have hpos := c.utf8Size_pos
    rw [hsource, String.utf8ByteSize_append, utf8ByteSize_ofList, utf8ByteSize_ofList, textSize]
    omega
  · refine String.Pos.Raw.isValid_iff_exists_append.mpr ⟨_, _, hsource, ?_⟩
    rw [← utf8ByteSize_ofList]
    rfl

open Shape.Reader in
/-- Every character has some bytes, so the size of its front says where a text is split. -/
theorem eq_of_textSize_eq {front front' back back' : List Char}
    (split : front ++ back = front' ++ back') (size : textSize front = textSize front') :
    front = front' ∧ back = back' := by
  -- A front that is over while the other is not has fewer bytes, so both are over at once.
  induction front generalizing front' with
  | nil =>
    cases front' with
    | nil => exact ⟨rfl, split⟩
    | cons d ds =>
      have hpos := d.utf8Size_pos
      rw [textSize, textSize] at size
      omega
  | cons c cs ih =>
    cases front' with
    | nil =>
      have hpos := c.utf8Size_pos
      rw [textSize, textSize] at size
      omega
    | cons d ds =>
      obtain ⟨rfl, hrest⟩ := List.cons.inj split
      obtain ⟨rfl, hback⟩ := ih hrest (Nat.add_left_cancel size)
      exact ⟨rfl, hback⟩

/-- A text has one character at an offset. -/
theorem CharacterAt.unique {source : String} {offset : Nat} {front front' back back' : List Char}
    {c c' : Char} (first : CharacterAt source offset front c back)
    (second : CharacterAt source offset front' c' back') :
    front = front' ∧ c = c' ∧ back = back' := by
  have hsplit : front ++ c :: back = front' ++ c' :: back' := first.split.symm.trans second.split
  have hsize : (String.ofList front).utf8ByteSize = (String.ofList front').utf8ByteSize :=
    first.size.trans second.size.symm
  rw [Shape.Reader.utf8ByteSize_ofList, Shape.Reader.utf8ByteSize_ofList] at hsize
  obtain ⟨hfront, hback⟩ := eq_of_textSize_eq hsplit hsize
  exact ⟨hfront, List.cons.inj hback⟩

namespace Shape

namespace Reader

open Grammar

/-! ### Names that have begun -/

/-- The text up to a letter of a name that begins at `start`, behind the fields of its object. -/
inductive NameText (fields : List Field) (start : Nat) (letters : List Char) :
    List Char → Prop where
  | mk {outer front ws : List Char} (earlier : FrontText fields front) (blank : Blanks ws)
    (name : NameLetters letters) (begins : textSize (outer ++ front ++ ws) = start) :
    NameText fields start letters (outer ++ front ++ ws ++ letters.reverse)

/-- A name goes on with every character that is no delimiter. -/
theorem NameText.cons {fields : List Field} {start : Nat} {letters cs : List Char} {c : Char}
    (text : NameText fields start letters cs) (plain : isDelimiter c = false) :
    NameText fields start (c :: letters) (cs ++ [c]) := by
  obtain ⟨earlier, blank, name, begins⟩ := text
  rw [List.append_assoc, ← List.reverse_cons]
  exact .mk earlier blank (name.cons plain) begins

/-- Trimming a text that begins with no blank leaves a part at its front. -/
theorem trim_prefix_of_solid {c : Char} (solid : isBlank c = false) (cs : List Char) :
    trim (c :: cs) <+: c :: cs := by
  have hsuffix : trimEnd (c :: cs).reverse <:+ (c :: cs).reverse := List.dropWhile_suffix isBlank
  rw [trim_cons_of_solid solid]
  rwa [← List.reverse_suffix, List.reverse_reverse]

/-- A name that an earlier field has is that of a second field, whatever ends it. -/
theorem NameText.secondField {fields : List Field} {start : Nat} {letters cs : List Char}
    (text : NameText fields start letters cs)
    (taken : ∃ earlier ∈ fields, earlier.name = nameOf letters) {rest : List Char}
    (ends : ∀ d, rest.head? = some d → isDelimiter d = true) :
    ∃ front c back, cs ++ rest = front ++ c :: back ∧ textSize front = start ∧
      isBlank c = false ∧ SecondField (nameOf letters) front (c :: back) := by
  obtain @⟨outer, front, ws, earlier, blank, name, begins⟩ := text
  obtain ⟨-, c, tail, hreverse, solid⟩ := id name
  refine ⟨outer ++ front ++ ws, c, tail ++ rest, by simp [hreverse], begins, solid, ?_, ?_, ?_⟩
  · -- Where there is an earlier field, the last thing in front of the name is a comma.
    cases earlier with
    | first =>
      obtain ⟨field, hfield, -⟩ := taken
      cases hfield
    | @next inner _ hinner => exact ⟨outer, inner, ws, fields, by simp, hinner, blank, taken⟩
  · refine ⟨letters.reverse, rest, by simp [hreverse], name.rawName, ?_, ends⟩
    exact name.nameOf_eq.symm
  · rw [name.nameOf_eq, String.toList_ofList, hreverse]
    exact (trim_prefix_of_solid solid tail).trans (List.prefix_append (c :: tail) rest)

/-- The name at a place begins where it says. -/
def Place.Noted (cs : List Char) : Place → Prop
  | .fieldName _ fields start letters => NameText fields start letters cs
  | _ => True

/-- The name of a field that waits for its shape begins where it says. -/
def Frame.Noted (cs : List Char) : Frame → Prop
  | .field _ fields start name => ∃ before letters b rest,
      cs = before ++ Bracket.opening b :: rest ∧ NameText fields start letters before ∧
        nameOf letters = name
  | .element _ => True

/-- All names that a state holds begin where they say. -/
def State.Noted (cs : List Char) : State → Prop
  | .inside place frames => place.Noted cs ∧ ∀ frame ∈ frames, frame.Noted cs
  | _ => True

/-- What was noted stays so when the text goes on. -/
theorem Frame.Noted.concat {frame : Frame} {cs : List Char} (noted : frame.Noted cs) (c : Char) :
    frame.Noted (cs ++ [c]) := by
  cases frame with
  | element => trivial
  | field opened fields start name =>
    obtain ⟨before, letters, b, rest, rfl, htext, hname⟩ := noted
    exact ⟨before, letters, b, rest ++ [c], by simp, htext, hname⟩

/-- Behind an opening bracket no name has begun. -/
theorem Place.noted_behind (cs : List Char) (offset : Nat) (b : Bracket) :
    (Place.behind offset b).Noted cs := by
  cases b <;> trivial

/-- A shape that is handed on leaves the names of the containers around it as they were. -/
theorem State.noted_of_complete {shape : Shape} {frames : List Frame} {cs : List Char}
    {next : State} (noted : ∀ frame ∈ frames, frame.Noted cs)
    (hand : complete shape frames = .ok next) : next.Noted cs := by
  match frames with
  | [] =>
    cases hand
    trivial
  | .field _ _ _ _ :: outer =>
    obtain ⟨fields, -, hnext⟩ := exists_of_bind_ok hand
    cases hnext
    exact ⟨trivial, fun frame h => noted frame (List.mem_cons_of_mem _ h)⟩
  | .element _ :: outer =>
    cases hand
    exact ⟨trivial, fun frame h => noted frame (List.mem_cons_of_mem _ h)⟩

/-- Every step keeps where names begin. -/
theorem State.Noted.step {limit : Nat} {cs : List Char} {c : Char} {state next : State}
    (reaches : Reaches limit cs state) (h : Step limit (textSize cs) c state next)
    (noted : state.Noted cs) : next.Noted (cs ++ [c]) := by
  have hframes {frames : List Frame} (h : ∀ frame ∈ frames, frame.Noted cs) :
      ∀ frame ∈ frames, frame.Noted (cs ++ [c]) := fun frame hframe => (h frame hframe).concat c
  cases h with
  | startBlank => trivial
  | doneBlank => trivial
  | startOpen b => exact ⟨Place.noted_behind _ _ b, nofun⟩
  | nameBegin solid plain =>
    -- The name begins at this letter, so what was read so far is in front of it.
    cases reaches.stateText with
    | @inside _ _ _ outer _ inner =>
      cases inner with
      | fieldStart earlier blank =>
        refine ⟨?_, hframes noted.2⟩
        rw [← List.append_assoc]
        exact .mk earlier blank (.singleton solid plain) rfl
  | nameLetter plain => exact ⟨NameText.cons noted.1 plain, hframes noted.2⟩
  | nameOpen b char =>
    refine ⟨Place.noted_behind _ _ b, List.forall_mem_cons.mpr ⟨?_, hframes noted.2⟩⟩
    exact ⟨cs, _, b, [], by rw [char], noted.1, rfl⟩
  | elementOpen b =>
    exact ⟨Place.noted_behind _ _ b, List.forall_mem_cons.mpr ⟨trivial, hframes noted.2⟩⟩
  | fieldBlank => exact ⟨trivial, hframes noted.2⟩
  | nameComma => exact ⟨trivial, hframes noted.2⟩
  | endBlank => exact ⟨trivial, hframes noted.2⟩
  | endComma => exact ⟨trivial, hframes noted.2⟩
  | elementBlank => exact ⟨trivial, hframes noted.2⟩
  | closeBlank => exact ⟨trivial, hframes noted.2⟩
  | emptyClose _ hand => exact noted_of_complete (hframes noted.2) hand
  | nameClose _ _ hand => exact noted_of_complete (hframes noted.2) hand
  | endClose _ hand => exact noted_of_complete (hframes noted.2) hand
  | elementNone _ hand => exact noted_of_complete (hframes noted.2) hand
  | elementClose _ hand => exact noted_of_complete (hframes noted.2) hand

/-- All names that the reader holds begin where they say. -/
theorem Reaches.noted {limit : Nat} {cs : List Char} {state : State}
    (h : Reaches limit cs state) : state.Noted cs :=
  h.induction (motive := fun cs state => state.Noted cs) trivial State.Noted.step

end Reader

open Grammar Reader

/-! ### Where faults stand -/

/-- A fault stands at a character of which it is true. -/
def LocatedIn (source : String) (limit : Nat) (error : SyntaxError) : Prop :=
  ∃ offset front c back, error.offset? = some offset ∧ CharacterAt source offset front c back ∧
    isBlank c = false ∧ error.TrueOf limit front c back

variable {source : String} {limit : Nat} {error : SyntaxError}

/-- The fault of a second field stands where the name of the field begins. -/
theorem locatedIn_of_nameText {fields : List Field} {start : Nat} {letters cs rest : List Char}
    (text : NameText fields start letters cs)
    (taken : ∃ earlier ∈ fields, earlier.name = nameOf letters)
    (ends : ∀ d, rest.head? = some d → isDelimiter d = true) (h : source.toList = cs ++ rest) :
    LocatedIn source limit (.duplicateField (nameOf letters) start) := by
  obtain ⟨front, c, back, hsplit, rfl, solid, second⟩ := text.secondField taken ends
  exact ⟨_, front, c, back, rfl, .of_split (h.trans hsplit), solid, second⟩

/-- The fault of a character that is refused is located. -/
theorem locatedIn_of_refusal {front back : List Char} {c : Char} {state : State}
    (reaches : Reaches limit front state) (split : source.toList = front ++ c :: back)
    (refused : Refusal limit (textSize front) c state error) : LocatedIn source limit error := by
  cases refused with
  | root solid other =>
    refine ⟨_, front, c, back, rfl, .of_split split, solid, rfl, reaches.blanks, ?_⟩
    rintro b rfl
    rw [Bracket.ofOpening?_opening] at other
    cases other
  | deep b char full =>
    have hcount : openAfter front = limit := by
      rw [reaches.openAfter_eq]
      exact Nat.le_antisymm reaches.fits.openCount_le full
    have solid : isBlank c = false := by
      rw [char]
      exact isBlank_of_isDelimiter (isDelimiter_opening b)
    exact ⟨_, front, c, back, rfl, .of_split split, solid, rfl, ⟨b, char⟩, hcount⟩
  | nameless delimiter =>
    exact ⟨_, front, c, back, rfl, .of_split split, isBlank_of_isDelimiter delimiter, delimiter⟩
  | misplaced expected solid => exact ⟨_, front, c, back, rfl, .of_split split, solid, rfl⟩
  | leafTwice delimiter taken =>
    refine locatedIn_of_nameText reaches.noted.1 taken ?_ split
    rintro d hd
    cases hd
    exact delimiter
  | shapeTwice _ taken =>
    -- The name was read in front of the bracket that opens the shape of the field.
    obtain ⟨before, letters, b, rest, rfl, htext, rfl⟩ :=
      reaches.noted.2 _ List.mem_cons_self
    have hsplit : source.toList = before ++ b.opening :: (rest ++ c :: back) := by simp [split]
    refine locatedIn_of_nameText htext taken ?_ hsplit
    rintro d hd
    cases hd
    exact isDelimiter_opening b
  | @trailing shape solid =>
    have hread : Shape.parse (String.ofList front) limit = .ok shape := by
      have hrun : State.start.run limit (locate 0 front) = .ok (.done shape) := reaches
      rw [Shape.parse, String.toList_ofList, hrun]
      rfl
    exact ⟨_, front, c, back, rfl, .of_split split, solid, shape, hread⟩

/-- The fault of a text that ends too early is located, unless there is nothing in the text. -/
theorem locatedIn_of_unfinished {state : State} (reaches : Reaches limit source.toList state)
    (unfinished : Unfinished state error) (h : error ≠ .empty) :
    LocatedIn source limit error := by
  cases unfinished with
  | nothing => exact absurd rfl h
  | unclosed place frames =>
    -- The bracket was read long before, and still stands where its offset says.
    have hopen : openBrackets source.toList = place.bracket :: frames.map Frame.bracket :=
      reaches.openBrackets_eq
    have hmem : place.bracket ∈ openBrackets source.toList := by
      rw [hopen]
      exact List.mem_cons_self
    obtain ⟨front, back, hsplit, hoffset⟩ := exists_of_mem_openBrackets hmem
    refine ⟨place.bracket.2, front, place.bracket.1.opening, back, rfl, ?_, ?_, rfl, _, rfl, ?_⟩
    · rw [← hoffset]
      exact .of_split hsplit
    · exact isBlank_of_isDelimiter (isDelimiter_opening place.bracket.1)
    · rw [← hsplit, hopen]
      rfl
  | leafTwice taken =>
    refine locatedIn_of_nameText reaches.noted.1 taken ?_ (List.append_nil _).symm
    rintro d ⟨⟩

/-- A text has no shape at all exactly if it is white space. -/
theorem eq_empty_iff (h : Shape.parse source limit = .error error) :
    error = .empty ↔ Blanks source.toList := by
  constructor
  · rintro rfl
    rcases exists_refusal h with ⟨_, _, _, _, -, -, refused⟩ | ⟨state, reaches, hend⟩
    · cases Refusal.of_step refused
    · cases Unfinished.of_finish hend
      exact reaches.blanks
  · intro blank
    -- White space leads from the start back to it.
    have hblanks := @Leads.blanks_self False limit .start _ blank
      fun offset c hc => by simp [State.step, hc]
    obtain ⟨_, hrun, rfl⟩ := (hblanks 0).exists_ok
    rw [Shape.parse, hrun] at h
    exact (Except.error.inj h).symm

/-- Every fault is located. A text of white space has the fault of an empty text, and no other
text has it. Every other fault stands at a character of the text that is not blank, and what it
says of the text is so. -/
theorem fault_located (h : Shape.parse source limit = .error error) :
    (error = .empty ↔ Blanks source.toList) ∧
      (error ≠ .empty → LocatedIn source limit error) := by
  refine ⟨eq_empty_iff h, fun hne => ?_⟩
  rcases exists_refusal h with
    ⟨front, c, back, state, split, reaches, refused⟩ | ⟨_, reaches, hend⟩
  · exact locatedIn_of_refusal reaches split (.of_step refused)
  · exact locatedIn_of_unfinished reaches (.of_finish hend) hne

/-- The second field of a name has a shape with a field inside, so the fault is found long behind
the place where it stands. -/
theorem fault_located_second_field :
    let source := "{ é{b}, c, é [{x}] }"
    Shape.parse source 2 = .error (.tooDeep 2 16) ∧
      LocatedIn source 2 (.tooDeep 2 16) ∧
      Shape.parse source 3 = .error (.duplicateField "é" 12) ∧
      LocatedIn source 3 (.duplicateField "é" 12) := by
  intro source
  have hdeep : Shape.parse source 2 = .error (.tooDeep 2 16) := by decide +kernel
  have htwice : Shape.parse source 3 = .error (.duplicateField "é" 12) := by decide +kernel
  exact ⟨hdeep, (fault_located hdeep).2 nofun, htwice, (fault_located htwice).2 nofun⟩

end Shape

end DocShape
