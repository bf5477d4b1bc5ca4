import DocShape.Proofs.Shape.Refusals

/-!
# `DocShape.Proofs.Shape.Descent`: reading a shape text by descent

The same texts can be read by functions that call each other along the grammar: a shape calls for
its fields, a field for the shape behind its name. They share a cursor, a byte offset into the
text and the number of containers that are open, and look at the text only by cutting it at the
offset. Cutting fails if the offset is not between two characters, and loops and calls fail if
they take more turns than the text has characters.

A descent writes down where its cursor is after every change, where it is called for a shape, and
how many turns its loops over fields take. What it can do is said in two ways:

* `DocShape.Proofs.Shape.Cursors`: from any place between two characters, every call moves the
  cursor with discipline.
* `DocShape.Proofs.Shape.Discipline`: the descent reads what `Shape.parse` reads, and takes no
  more turns and calls than the text has characters.
-/

set_option autoImplicit false

namespace DocShape

namespace Shape.Descent

open Reader

/-! ### Cutting a text -/

/-- The text up to a byte offset and the text behind it, if the offset is between characters. -/
def splitBytes? : Nat → List Char → Option (List Char × List Char)
  | 0, cs => some ([], cs)
  | _ + 1, [] => none
  | size + 1, c :: cs =>
    if c.utf8Size ≤ size + 1 then
      (splitBytes? (size + 1 - c.utf8Size) cs).map fun (front, back) => (c :: front, back)
    else none

/-- The text between two byte offsets. -/
def slice? (start stop : Nat) (text : List Char) : Option (List Char) :=
  if start ≤ stop then
    (splitBytes? start text).bind fun (_, back) => (splitBytes? (stop - start) back).map Prod.fst
  else none

/-- A text can be cut behind each of its characters. -/
theorem splitBytes?_append (front back : List Char) :
    splitBytes? (textSize front) (front ++ back) = some (front, back) := by
  induction front with
  | nil => cases back <;> rfl
  | cons c front ih =>
    -- The function counts bytes down, so the offset behind `c` has to be a successor.
    obtain ⟨size, hsize⟩ := Nat.exists_eq_add_one.mpr c.utf8Size_pos
    have hle : c.utf8Size ≤ size + textSize front + 1 := by omega
    have hrest : size + textSize front + 1 - c.utf8Size = textSize front := by omega
    have htotal : textSize (c :: front) = size + textSize front + 1 := by
      rw [textSize]
      omega
    rw [htotal, List.cons_append, splitBytes?, if_pos hle, hrest, ih]
    rfl

/-! ### Cursors -/

/-- Where a descent is. -/
structure Cursor where
  /-- The byte offset of the next character. -/
  position : Nat
  /-- The number of containers that are open. -/
  depth : Nat
  deriving DecidableEq

/-- What a descent changes. -/
structure Scan where
  cursor : Cursor
  /-- All cursors so far, oldest first. -/
  trail : List Cursor
  /-- The positions at which a shape was called for, oldest first. -/
  calls : List Nat
  /-- The number of turns that loops over fields took. -/
  turns : Nat

/-- Why a descent comes to no end of its own. -/
inductive Halt where
  /-- The text has a fault. -/
  | fault (error : SyntaxError)
  /-- The text was to be cut inside a character or behind its end. -/
  | badSlice
  /-- There were more turns than the text has characters. -/
  | exhausted
  deriving DecidableEq

/-- A part of a descent. -/
abbrev Descending := EStateM Halt Scan

namespace Cursor

/-- The cursor at another position. -/
def goto (cursor : Cursor) (position : Nat) : Cursor :=
  { cursor with position }

/-- The cursor one container deeper. -/
def down (cursor : Cursor) : Cursor :=
  { cursor with depth := cursor.depth + 1 }

/-- The cursor one container less deep. -/
def up (cursor : Cursor) : Cursor :=
  { cursor with depth := cursor.depth - 1 }

end Cursor

namespace Scan

/-- A descent at the start of a text. -/
def start : Scan :=
  ⟨⟨0, 0⟩, [⟨0, 0⟩], [], 0⟩

/-- The scan with another cursor, which is written down. -/
def move (scan : Scan) (cursor : Cursor) : Scan :=
  { scan with cursor, trail := scan.trail ++ [cursor] }

/-- The scan behind a character. -/
def pass (scan : Scan) (c : Char) : Scan :=
  scan.move (scan.cursor.goto (scan.cursor.position + c.utf8Size))

/-- The scan with a call for a shape written down. -/
def call (scan : Scan) : Scan :=
  { scan with calls := scan.calls ++ [scan.cursor.position] }

/-- The scan with one more turn of a loop. -/
def turn (scan : Scan) : Scan :=
  { scan with turns := scan.turns + 1 }

end Scan

/-! ### Parts of a descent -/

/-- Ends the descent with a fault of the text. -/
def fail {α : Type} (error : SyntaxError) : Descending α :=
  throw (.fault error)

/-- The position of the cursor. -/
def position : Descending Nat := do
  return (← get).cursor.position

/-- The next character, if there is one. -/
def current (text : List Char) : Descending (Option Char) := do
  match splitBytes? (← position) text with
  | some (_, back) => return back.head?
  | none => throw .badSlice

/-- The text between two positions. -/
def slice (text : List Char) (start stop : Nat) : Descending (List Char) :=
  match slice? start stop text with
  | some found => return found
  | none => throw .badSlice

/-- Goes behind the next character, if there is one. -/
def advance (text : List Char) : Descending Unit := do
  match ← current text with
  | some c => modify fun scan => scan.pass c
  | none => return ()

/-- Goes behind the next characters as long as they have a property. -/
def skipWhile (text : List Char) (property : Char → Bool) : Nat → Descending Unit
  | 0 => do
    -- Without turns the loop may still find that it is over.
    match ← current text with
    | some c => if property c then throw .exhausted else return ()
    | none => return ()
  | budget + 1 => do
    match ← current text with
    | some c =>
      if property c then do
        advance text
        skipWhile text property budget
      else return ()
    | none => return ()

/-- Goes behind white space. -/
def skipBlanks (text : List Char) : Descending Unit :=
  skipWhile text isBlank text.length

/-- Reads a field of the object that is opened at `opened`: a name, and a shape if there is a
bracket behind the name. -/
def field (text : List Char) (node : Descending Shape) (opened : Nat) : Descending Field := do
  let start ← position
  skipWhile text (fun c => !isDelimiter c) text.length
  let stop ← position
  -- White space inside of a name belongs to it, behind the name it does not.
  let name := trim (← slice text start stop)
  match ← current text with
  | none =>
    -- At the end of the text the missing bracket is the fault, not the missing name. Where there
    -- is a name the caller finds that the bracket is missing.
    if name = [] then fail (.unclosed Bracket.brace.opening opened)
    else return .leaf (String.ofList name)
  | some c =>
    if name = [] then fail (.emptyFieldName start)
    else if (Bracket.ofOpening? c).isSome then
      return .nested (String.ofList name) (← node)
    else return .leaf (String.ofList name)

/-- Puts a field behind others, unless one of them has its name. -/
def join (fields : List Field) (found : Field) (start : Nat) : Descending (List Field) :=
  match addField fields found start with
  | .ok fields => return fields
  | .error error => fail error

/-- Reads fields up to the end of the object that is opened at `opened`. -/
def fieldLoop (text : List Char) (node : Descending Shape) (opened : Nat) :
    Nat → List Field → Descending (List Field)
  | 0, _ => throw .exhausted
  | budget + 1, fields => do
    modify Scan.turn
    let start ← position
    let found ← field text node opened
    -- A second field of the same name is refused only when it was read as a whole.
    let fields ← join fields found start
    skipBlanks text
    let stop ← position
    match ← current text with
    | none => fail (.unclosed Bracket.brace.opening opened)
    | some c =>
      if c = ',' then do
        -- A field has to follow: the loop does not look for a closing bracket here.
        advance text
        skipBlanks text
        fieldLoop text node opened budget fields
      else if c = Bracket.brace.closing then do
        advance text
        return fields
      else fail (.unexpected "',' or '\x7d'" c stop)

/-- Reads the object whose bracket is next. -/
def object (text : List Char) (node : Descending Shape) (opened : Nat) : Descending Shape := do
  advance text
  skipBlanks text
  match ← current text with
  | some c =>
    if c = Bracket.brace.closing then do
      advance text
      return .object []
    else return .object (← fieldLoop text node opened text.length [])
  | none => return .object (← fieldLoop text node opened text.length [])

/-- Reads the end of an array that holds a shape or nothing. -/
def arrayEnd (text : List Char) (opened : Nat) (shape : Shape) : Descending Shape := do
  skipBlanks text
  let stop ← position
  match ← current text with
  | none => fail (.unclosed Bracket.square.opening opened)
  | some c =>
    if c = Bracket.square.closing then do
      advance text
      return shape
    else fail (.unexpected "']'" c stop)

/-- Reads the array whose bracket is next. -/
def array (text : List Char) (node : Descending Shape) (opened : Nat) : Descending Shape := do
  advance text
  skipBlanks text
  let stop ← position
  match ← current text with
  | none => fail (.unclosed Bracket.square.opening opened)
  | some c =>
    -- The closing bracket is left to `arrayEnd`, as it is behind an element.
    if c = Bracket.square.closing then arrayEnd text opened .emptyArray
    else if (Bracket.ofOpening? c).isSome then do
      arrayEnd text opened (.arrayOf (← node))
    else fail (.unexpected "'\x7b', '[' or ']'" c stop)

/-- Does something one container deeper, and comes back up however it ends. -/
def within {α : Type} (act : Descending α) : Descending α := fun scan =>
  match act.run (scan.move scan.cursor.down) with
  | .ok result after => .ok result (after.move after.cursor.up)
  | .error halt after => .error halt (after.move after.cursor.up)

/-- Does something one container deeper, if no more than `limit` are open then. -/
def nested (limit opened : Nat) (act : Descending Shape) : Descending Shape := do
  -- The limit is looked at before the cursor goes down, so the fault is at the bracket.
  if limit ≤ (← get).cursor.depth then fail (.tooDeep limit opened) else within act

/-- Reads the shape whose bracket is next. -/
def node (text : List Char) (limit : Nat) : Nat → Descending Shape
  | 0 => throw .exhausted
  | levels + 1 => do
    modify Scan.call
    let opened ← position
    match ← current text with
    | none => fail .empty
    | some c =>
      match Bracket.ofOpening? c with
      | some .brace => nested limit opened (object text (node text limit levels) opened)
      | some .square => nested limit opened (array text (node text limit levels) opened)
      | none => fail (.unexpected "'\x7b' or '['" c opened)

/-- Reads the end of the text behind a shape. -/
def ending (text : List Char) (shape : Shape) : Descending Shape := do
  skipBlanks text
  let stop ← position
  match ← current text with
  | none => return shape
  | some _ => fail (.trailingInput stop)

/-- Reads a whole text. -/
def root (text : List Char) (limit : Nat) : Descending Shape := do
  skipBlanks text
  let start ← position
  match ← current text with
  | none => fail .empty
  | some c =>
    if (Bracket.ofOpening? c).isSome then do
      -- Each call passes a bracket, so the text has a character for every call inside another.
      ending text (← node text limit text.length)
    else fail (.unexpectedRoot c start)

/-- What reading a text by descent ends with. -/
def read (source : String) (limit : Nat) : EStateM.Result Halt Scan Shape :=
  (root source.toList limit).run Scan.start

/-- The shape of the text or why there is none. -/
def answer (source : String) (limit : Nat) : Except Halt Shape :=
  match read source limit with
  | .ok shape _ => .ok shape
  | .error halt _ => .error halt

example : answer "{a, b [ {c} ]}" 3 =
    .ok (.object [.leaf "a", .nested "b" (.arrayOf (.object [.leaf "c"]))]) := by
  decide +kernel

end Shape.Descent

end DocShape
