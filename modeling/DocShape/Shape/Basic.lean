/-!
# `DocShape.Shape.Basic`: the shape of a document

A shape says which containers a document is made of. An object shape lists its fields in order; a
field is a leaf, whose value may be anything, or has a shape of its own. An array shape gives the
shape of every item, or none, and then only the empty array has it.

A shape built by hand may hold any names, also twice and also ones that no text can spell.
`Shape.text` is the one canonical text of a shape, `Shape.depth` the number of containers on its
longest way down.
-/

set_option autoImplicit false

namespace DocShape

mutual

/-- The shape of a document. -/
inductive Shape where
  /-- An object with these fields, in the order of their declaration. -/
  | object (fields : List Field)
  /-- An array that says nothing about its items. -/
  | emptyArray
  /-- An array whose items all have one shape. -/
  | arrayOf (element : Shape)

/-- One field of an object shape. -/
inductive Field where
  /-- A field without structure. -/
  | leaf (name : String)
  /-- A field whose value has a shape. -/
  | nested (name : String) (shape : Shape)

end

instance : Inhabited Shape := ⟨.emptyArray⟩
instance : Inhabited Field := ⟨.leaf ""⟩

/-! ### Brackets and other delimiters -/

/-- The two kinds of bracket. -/
inductive Bracket where
  /-- Around the fields of an object shape. -/
  | brace
  /-- Around the element of an array shape. -/
  | square
  deriving DecidableEq

namespace Bracket

/-- The character that opens. -/
def opening : Bracket → Char
  | brace => '\x7b'
  | square => '['

/-- The character that closes. -/
def closing : Bracket → Char
  | brace => '\x7d'
  | square => ']'

/-- The bracket that a character opens. -/
def ofOpening? (c : Char) : Option Bracket :=
  if c = brace.opening then some brace
  else if c = square.opening then some square
  else none

/-- A bracket is told from its opening character. -/
@[simp] theorem ofOpening?_opening (b : Bracket) : ofOpening? b.opening = some b := by
  cases b <;> rfl

end Bracket

/-- The characters that no field name holds: the brackets and the comma. -/
def isDelimiter (c : Char) : Bool :=
  c = Bracket.brace.opening || c = Bracket.brace.closing ||
    c = Bracket.square.opening || c = Bracket.square.closing || c = ','

namespace Field

/-- The name of a field. -/
def name : Field → String
  | leaf name => name
  | nested name _ => name

/-- The shape of a field that has one. -/
def shape? : Field → Option Shape
  | leaf _ => none
  | nested _ shape => some shape

/-- Whether a field is without structure. -/
def isLeaf : Field → Bool
  | leaf _ => true
  | nested _ _ => false

/-- The name of a leaf field. -/
@[simp] theorem name_leaf (name : String) : (leaf name).name = name := rfl
/-- The name of a field with a shape. -/
@[simp] theorem name_nested (name : String) (shape : Shape) :
    (nested name shape).name = name := rfl

end Field

namespace Shape

/-- The fields of an object shape. -/
def fields : Shape → List Field
  | object fields => fields
  | _ => []

/-- The element shape of an array shape. -/
def element? : Shape → Option Shape
  | arrayOf element => some element
  | _ => none

/-- Whether the shape asks for an object. -/
def isObject : Shape → Bool
  | object _ => true
  | _ => false

/-- Whether the shape asks for an array. -/
def isArray (shape : Shape) : Bool :=
  !shape.isObject

/-- The first field of a name. -/
def field? (shape : Shape) (name : String) : Option Field :=
  shape.fields.find? fun field => field.name = name

end Shape

/-! ### Depth -/

mutual

/-- The number of containers on the longest way down, the shape itself included. -/
def Shape.depth : Shape → Nat
  | .object fields => 1 + Field.deepest fields
  | .emptyArray => 1
  | .arrayOf element => 1 + element.depth

/-- The depth of the deepest shape among fields, 0 if all are leaves. -/
def Field.deepest : List Field → Nat
  | [] => 0
  | .leaf _ :: rest => Field.deepest rest
  | .nested _ shape :: rest => max shape.depth (Field.deepest rest)

end

/-! ### The canonical text -/

mutual

/-- The canonical text of a shape, letter by letter. -/
def Shape.letters : Shape → List Char
  | .object fields => Bracket.brace.opening :: (Field.joined fields ++ [Bracket.brace.closing])
  | .emptyArray => [Bracket.square.opening, Bracket.square.closing]
  | .arrayOf element =>
    Bracket.square.opening :: (element.letters ++ [Bracket.square.closing])

/-- The canonical text of a field, letter by letter. -/
def Field.letters : Field → List Char
  | .leaf name => name.toList
  | .nested name shape => name.toList ++ shape.letters

/-- The texts of fields with commas between them. -/
def Field.joined : List Field → List Char
  | [] => []
  | [field] => field.letters
  | field :: next :: rest => field.letters ++ ',' :: Field.joined (next :: rest)

end

/-- The canonical text of a shape: no blanks, fields in order. -/
def Shape.text (shape : Shape) : String :=
  String.ofList shape.letters

/-- The canonical text of a field. -/
def Field.text (field : Field) : String :=
  String.ofList field.letters

/-- The characters of the text of a shape. -/
@[simp] theorem Shape.toList_text (shape : Shape) : shape.text.toList = shape.letters := by
  simp [Shape.text]

/-- The characters of the text of a field. -/
@[simp] theorem Field.toList_text (field : Field) : field.text.toList = field.letters := by
  simp [Field.text]

/-! ### Equality -/

mutual

/-- Equality of shapes. -/
def Shape.beq : Shape → Shape → Bool
  | .object fields, .object others => Field.beqList fields others
  | .emptyArray, .emptyArray => true
  | .arrayOf element, .arrayOf other => element.beq other
  | _, _ => false

/-- Equality of fields. -/
def Field.beq : Field → Field → Bool
  | .leaf name, .leaf other => name == other
  | .nested name shape, .nested other other' => name == other && shape.beq other'
  | _, _ => false

/-- Equality of field lists, place by place. -/
def Field.beqList : List Field → List Field → Bool
  | [], [] => true
  | field :: fields, other :: others => field.beq other && Field.beqList fields others
  | _, _ => false

end

mutual

/-- The comparison that is computed is equality of shapes. -/
theorem Shape.beq_iff_eq : ∀ a b : Shape, a.beq b = true ↔ a = b
  | .object fields, b => by
    cases b <;> simp [Shape.beq]
    exact Field.beqList_iff_eq fields _
  | .emptyArray, b => by cases b <;> simp [Shape.beq]
  | .arrayOf element, b => by
    cases b <;> simp [Shape.beq]
    exact Shape.beq_iff_eq element _

/-- Fields are compared by name and by shape. -/
theorem Field.beq_iff_eq : ∀ a b : Field, a.beq b = true ↔ a = b
  | .leaf _, b => by cases b <;> simp [Field.beq]
  | .nested _ shape, b => by
    cases b <;> simp [Field.beq]
    intro _
    exact Shape.beq_iff_eq shape _

/-- Fields in order are compared one by one. -/
theorem Field.beqList_iff_eq : ∀ as bs : List Field, Field.beqList as bs = true ↔ as = bs
  | [], bs => by cases bs <;> simp [Field.beqList]
  | a :: as, bs => by
    cases bs with
    | nil => simp [Field.beqList]
    | cons b bs => simp [Field.beqList, Field.beq_iff_eq a b, Field.beqList_iff_eq as bs]

end

instance : DecidableEq Shape :=
  fun a b => decidable_of_iff (a.beq b = true) (Shape.beq_iff_eq a b)

instance : DecidableEq Field :=
  fun a b => decidable_of_iff (a.beq b = true) (Field.beq_iff_eq a b)

/-! ### Induction -/

/-- Induction over shapes, with one hypothesis for each structured field of an object. -/
theorem Shape.induction {motive : Shape → Prop}
    (object : ∀ fields, (∀ name shape, Field.nested name shape ∈ fields → motive shape) →
      motive (.object fields))
    (emptyArray : motive .emptyArray)
    (arrayOf : ∀ element, motive element → motive (.arrayOf element)) :
    ∀ shape, motive shape
  | .object fields => object fields fun name shape h =>
      have : sizeOf shape < 1 + sizeOf fields := by
        have := List.sizeOf_lt_of_mem h
        simp only [Field.nested.sizeOf_spec] at this
        omega
      Shape.induction object emptyArray arrayOf shape
  | .emptyArray => emptyArray
  | .arrayOf element => arrayOf element (Shape.induction object emptyArray arrayOf element)

end DocShape
