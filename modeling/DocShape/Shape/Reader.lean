import DocShape.Shape.Basic
import DocShape.Shape.Error
import DocShape.Text.Blank

/-!
# `DocShape.Shape.Reader`: reading a shape text

A shape text is a shape with white space around its delimiters:

* an object shape lists its fields between braces, with commas between them;
* a field is a name, followed by a shape if it has one. A name is what stands between two
  delimiters, trimmed; it is not empty, and no two fields of one object share it;
* an array shape holds nothing or one shape between square brackets;
* no more containers than the limit are open at once.

The reader is a machine that takes the text character by character. Its state is what it has read
of the innermost open container, and a frame for each container around that one. A character is
refused as soon as no text that goes on from it could be read, with one exception: a name that was
given before is refused when its field ends, after all faults inside the field.
-/

set_option autoImplicit false

namespace DocShape

namespace Shape.Reader

/-- A place in the innermost open container. `opened` is the offset of its bracket. -/
inductive Place where
  /-- A field must follow, or the closing bracket if there is no field yet. -/
  | fieldStart (opened : Nat) (fields : List Field)
  /-- Inside the name of a field that starts at `start`. The letters are given last first. -/
  | fieldName (opened : Nat) (fields : List Field) (start : Nat) (letters : List Char)
  /-- A comma or the closing bracket must follow. -/
  | fieldEnd (opened : Nat) (fields : List Field)
  /-- The element of an array or its closing bracket must follow. -/
  | elementStart (opened : Nat)
  /-- The closing bracket of an array must follow. -/
  | elementEnd (opened : Nat) (element : Shape)

/-- A container that waits for a shape inside it to end. -/
inductive Frame where
  /-- An object whose field `name` has the shape being read. -/
  | field (opened : Nat) (fields : List Field) (start : Nat) (name : String)
  /-- An array whose element is being read. -/
  | element (opened : Nat)

/-- How far the reader is. -/
inductive State where
  /-- No bracket yet. -/
  | start
  /-- Inside a container. The frames are those around it, innermost first. -/
  | inside (place : Place) (frames : List Frame)
  /-- The shape is complete. -/
  | done (shape : Shape)

instance : Inhabited State := ⟨.start⟩

/-- The number of containers that are open. -/
def State.openCount : State → Nat
  | .inside _ frames => frames.length + 1
  | _ => 0

/-- The bracket of the innermost open container and its offset. -/
def Place.bracket : Place → Bracket × Nat
  | .fieldStart opened _ => (.brace, opened)
  | .fieldName opened _ _ _ => (.brace, opened)
  | .fieldEnd opened _ => (.brace, opened)
  | .elementStart opened => (.square, opened)
  | .elementEnd opened _ => (.square, opened)

/-! ### Steps -/

/-- Where reading goes on behind an opening bracket. -/
def Place.behind (opened : Nat) : Bracket → Place
  | .brace => .fieldStart opened []
  | .square => .elementStart opened

/-- Opens a container inside the given frames. -/
def openContainer (limit offset : Nat) (bracket : Bracket) (frames : List Frame) :
    Except SyntaxError State :=
  if frames.length < limit then .ok (.inside (.behind offset bracket) frames)
  else .error (.tooDeep limit offset)

/-- Adds a field, whose name starts at `start`, behind the others. -/
def addField (fields : List Field) (field : Field) (start : Nat) :
    Except SyntaxError (List Field) :=
  if fields.any fun earlier => earlier.name = field.name then
    .error (.duplicateField field.name start)
  else .ok (fields ++ [field])

/-- Hands a complete shape to the innermost of the frames around it. -/
def complete (shape : Shape) : List Frame → Except SyntaxError State
  | [] => .ok (.done shape)
  | .field opened fields start name :: frames => do
    -- Only here a field with a shape meets the earlier names, behind all faults inside it.
    let fields ← addField fields (.nested name shape) start
    .ok (.inside (.fieldEnd opened fields) frames)
  | .element opened :: frames => .ok (.inside (.elementEnd opened shape) frames)

/-- The name whose letters are given last first. They begin with one that is not blank. -/
def nameOf (letters : List Char) : String :=
  String.ofList (trimEnd letters).reverse

/-- Takes the delimiter behind a field. -/
def endField (opened : Nat) (fields : List Field) (frames : List Frame) (offset : Nat)
    (c : Char) : Except SyntaxError State :=
  if c = ',' then .ok (.inside (.fieldStart opened fields) frames)
  else if c = Bracket.brace.closing then complete (.object fields) frames
  else .error (.unexpected "',' or '\x7d'" c offset)

/-- Takes one character inside a container. -/
def Place.step (limit : Nat) (frames : List Frame) (offset : Nat) (c : Char) :
    Place → Except SyntaxError State
  | .fieldStart opened fields =>
    if isBlank c then .ok (.inside (.fieldStart opened fields) frames)
    -- Behind a comma there are fields already, and the object must not end there.
    else if c = Bracket.brace.closing ∧ fields = [] then complete (.object []) frames
    else if isDelimiter c then .error (.emptyFieldName offset)
    else .ok (.inside (.fieldName opened fields offset [c]) frames)
  | .fieldName opened fields start letters =>
    if isDelimiter c then
      match Bracket.ofOpening? c with
      | some bracket =>
        -- The frame keeps the name until its shape is complete.
        openContainer limit offset bracket (.field opened fields start (nameOf letters) :: frames)
      | none => do
        let fields ← addField fields (.leaf (nameOf letters)) start
        endField opened fields frames offset c
    -- White space may belong to the name: that is known only when the name is over.
    else .ok (.inside (.fieldName opened fields start (c :: letters)) frames)
  | .fieldEnd opened fields =>
    if isBlank c then .ok (.inside (.fieldEnd opened fields) frames)
    else endField opened fields frames offset c
  | .elementStart opened =>
    if isBlank c then .ok (.inside (.elementStart opened) frames)
    else if c = Bracket.square.closing then complete .emptyArray frames
    else
      match Bracket.ofOpening? c with
      | some bracket => openContainer limit offset bracket (.element opened :: frames)
      | none => .error (.unexpected "'\x7b', '[' or ']'" c offset)
  | .elementEnd opened element =>
    if isBlank c then .ok (.inside (.elementEnd opened element) frames)
    else if c = Bracket.square.closing then complete (.arrayOf element) frames
    else .error (.unexpected "']'" c offset)

/-- Takes the character at an offset. -/
def State.step (limit offset : Nat) (c : Char) : State → Except SyntaxError State
  | .start =>
    if isBlank c then .ok .start
    else
      match Bracket.ofOpening? c with
      | some bracket => openContainer limit offset bracket []
      | none => .error (.unexpectedRoot c offset)
  | .inside place frames => place.step limit frames offset c
  | .done shape => if isBlank c then .ok (.done shape) else .error (.trailingInput offset)

/-- The fault of a text that ends inside a container. -/
def Place.unclosed (place : Place) : SyntaxError :=
  .unclosed place.bracket.1.opening place.bracket.2

/-- Takes the end of the text inside a container. A name that ends there may be a second one. -/
def Place.finish : Place → SyntaxError
  | .fieldName opened fields start letters =>
    match addField fields (.leaf (nameOf letters)) start with
    | .ok fields => (Place.fieldEnd opened fields).unclosed
    | .error duplicate => duplicate
  | place => place.unclosed

/-- Takes the end of the text. -/
def State.finish : State → Except SyntaxError Shape
  | .start => .error .empty
  | .inside place _ => .error place.finish
  | .done shape => .ok shape

/-! ### Runs -/

/-- Characters with their byte offsets, the first of them at `offset`. -/
def locate (offset : Nat) : List Char → List (Nat × Char)
  | [] => []
  | c :: cs => (offset, c) :: locate (offset + c.utf8Size) cs

/-- Locating characters keeps them as they are. -/
@[simp] theorem map_snd_locate (offset : Nat) (cs : List Char) :
    (locate offset cs).map Prod.snd = cs := by
  induction cs generalizing offset with
  | nil => rfl
  | cons c cs ih => simp [locate, ih]

/-- Takes characters in order, up to the first that is refused. -/
def State.run (limit : Nat) (state : State) : List (Nat × Char) → Except SyntaxError State
  | [] => .ok state
  | (offset, c) :: rest => do
    let next ← state.step limit offset c
    next.run limit rest

/-- A text in two parts is run part by part. -/
theorem State.run_append (limit : Nat) (state : State) (cs ds : List (Nat × Char)) :
    state.run limit (cs ++ ds) = (state.run limit cs).bind (·.run limit ds) := by
  induction cs generalizing state with
  | nil => rfl
  | cons head cs ih =>
    obtain ⟨offset, c⟩ := head
    simp only [List.cons_append, State.run, bind, Except.bind]
    cases state.step limit offset c with
    | error _ => rfl
    | ok next => exact ih next

end Shape.Reader

/-- The number of containers that may be open at once where nothing else is said. -/
def defaultMaxDepth : Nat := 128

/-- Reads a shape text with at most `limit` containers open at once. -/
def Shape.parse (source : String) (limit : Nat := defaultMaxDepth) :
    Except SyntaxError Shape := do
  let state ← Reader.State.start.run limit (Reader.locate 0 source.toList)
  state.finish

end DocShape
