import DocShape.Proofs.Shape.Names

/-!
# `DocShape.Proofs.Shape.Grammar`: the grammar of shape texts

The texts of a shape, said without a reader. A text is a shape between white space. Inside a shape
white space may stand next to every bracket and comma, and a raw name is what stands between two
delimiters:

```text
root   := ws node ws
node   := "{" ws "}" | "{" ws field ws ("," ws field ws)* "}" | "[" ws "]" | "[" ws node ws "]"
field  := raw name, with or without a node behind it
```

The grammar says nothing about names that repeat or about the number of open brackets. The first
is `Shape.DistinctNames`, the second `Grammar.peak`, which is read off the text alone. The two
results about texts are:

* `Grammar.Root.peak_eq`: the peak of a text is the depth of its shape.
* `Grammar.Root.proper`: the names of its shape are trimmed, not empty and without delimiters.
-/

set_option autoImplicit false

namespace DocShape

namespace Grammar

/-- The text of a name with the white space around it. -/
structure RawName (cs : List Char) : Prop where
  plain : ∀ c ∈ cs, isDelimiter c = false
  solid : trim cs ≠ []

mutual

/-- The text of a shape, from its opening to its closing bracket. -/
inductive Node : List Char → Shape → Prop where
  | emptyObject {ws : List Char} (blank : Blanks ws) :
    Node (Bracket.brace.opening :: (ws ++ [Bracket.brace.closing])) (.object [])
  | object {cs : List Char} {fields : List Field} (inner : Fields cs fields) :
    Node (Bracket.brace.opening :: (cs ++ [Bracket.brace.closing])) (.object fields)
  | emptyArray {ws : List Char} (blank : Blanks ws) :
    Node (Bracket.square.opening :: (ws ++ [Bracket.square.closing])) .emptyArray
  | arrayOf {before cs after : List Char} {element : Shape} (blank : Blanks before)
    (inner : Node cs element) (blank' : Blanks after) :
    Node (Bracket.square.opening :: (before ++ cs ++ after ++ [Bracket.square.closing]))
      (.arrayOf element)

/-- The text of a field. -/
inductive OneField : List Char → Field → Prop where
  | leaf {raw : List Char} (name : RawName raw) :
    OneField raw (.leaf (String.ofList (trim raw)))
  | nested {raw cs : List Char} {shape : Shape} (name : RawName raw) (inner : Node cs shape) :
    OneField (raw ++ cs) (.nested (String.ofList (trim raw)) shape)

/-- The text of a field between white space. -/
inductive Padded : List Char → Field → Prop where
  | mk {before cs after : List Char} {field : Field} (blank : Blanks before)
    (inner : OneField cs field) (blank' : Blanks after) : Padded (before ++ cs ++ after) field

/-- The text of one field or more, with commas between them. -/
inductive Fields : List Char → List Field → Prop where
  | one {cs : List Char} {field : Field} (head : Padded cs field) : Fields cs [field]
  | more {cs ds : List Char} {field : Field} {fields : List Field} (head : Padded cs field)
    (tail : Fields ds fields) : Fields (cs ++ ',' :: ds) (field :: fields)

end

/-- The text of a shape between white space. -/
inductive Root : List Char → Shape → Prop where
  | mk {before cs after : List Char} {shape : Shape} (blank : Blanks before)
    (inner : Node cs shape) (blank' : Blanks after) : Root (before ++ cs ++ after) shape

/-- A field joins others behind a comma. -/
theorem Fields.snoc {cs ds : List Char} {fields : List Field} {field : Field}
    (front : Fields cs fields) (last : Padded ds field) :
    Fields (cs ++ ',' :: ds) (fields ++ [field]) := by
  -- The grammar adds fields in front, so this goes along all of those that are there.
  match front with
  | .one head => exact .more head (.one last)
  | .more head tail =>
    rw [List.append_assoc, List.cons_append, List.cons_append]
    exact .more head (tail.snoc last)

/-- White space behind a field belongs to it. -/
theorem Fields.append_blanks {cs ws : List Char} {fields : List Field} (inner : Fields cs fields)
    (blank : Blanks ws) : Fields (cs ++ ws) fields := by
  match inner with
  | .one (.mk blank₁ field blank₂) =>
    rw [List.append_assoc]
    exact .one (.mk blank₁ field (blanks_append.mpr ⟨blank₂, blank⟩))
  | .more head tail =>
    rw [List.append_assoc, List.cons_append]
    exact .more head (tail.append_blanks blank)

/-! ### Delimiters -/

/-- No delimiter is white space. -/
theorem isDelimiter_of_isBlank {c : Char} (blank : isBlank c = true) : isDelimiter c = false := by
  -- There are five delimiters, and none of them is in a range of blanks.
  by_contra hne
  have hdelimiter : isDelimiter c = true := by simpa using hne
  simp only [isDelimiter, Bool.or_eq_true, decide_eq_true_eq] at hdelimiter
  rcases hdelimiter with (((h | h) | h) | h) | h <;> subst h <;> revert blank <;> decide

/-- No white space is a delimiter. -/
theorem isBlank_of_isDelimiter {c : Char} (h : isDelimiter c = true) : isBlank c = false := by
  by_contra hne
  rw [isDelimiter_of_isBlank (by simpa using hne)] at h
  cases h

/-- Opening brackets are delimiters. -/
theorem isDelimiter_opening (b : Bracket) : isDelimiter b.opening = true := by
  cases b <;> decide

/-- Closing brackets are delimiters. -/
theorem isDelimiter_closing (b : Bracket) : isDelimiter b.closing = true := by
  cases b <;> decide

/-- No bracket opens and closes. -/
theorem opening_ne_closing (b b' : Bracket) : b.opening ≠ b'.closing := by
  cases b <;> cases b' <;> decide

/-- The delimiters that end a field: the comma, and the bracket that ends its object. -/
def EndsField (c : Char) : Prop :=
  c = ',' ∨ c = Bracket.brace.closing

namespace EndsField

variable {c : Char}

/-- What ends a field is a delimiter. -/
theorem isDelimiter (h : EndsField c) : isDelimiter c = true := by
  rcases h with rfl | rfl <;> decide

/-- What ends a field opens nothing. -/
theorem ne_opening (h : EndsField c) (b : Bracket) : c ≠ b.opening := by
  rcases h with rfl | rfl
  · cases b <;> decide
  · exact (opening_ne_closing b .brace).symm

end EndsField

/-! ### Open brackets -/

/-- The number of open brackets behind a character, from that in front of it. -/
def shift (level : Nat) (c : Char) : Nat :=
  if c = Bracket.brace.opening ∨ c = Bracket.square.opening then level + 1
  else if c = Bracket.brace.closing ∨ c = Bracket.square.closing then level - 1
  else level

/-- The greatest number of brackets that are open at once in a text with `level` open brackets in
front of it. -/
def peak (level : Nat) : List Char → Nat
  | [] => level
  | c :: cs => max level (peak (shift level c) cs)

/-- An opening bracket opens one more container. -/
theorem shift_opening (level : Nat) (b : Bracket) : shift level b.opening = level + 1 := by
  cases b <;> rfl

/-- A closing bracket takes back what an opening one added. -/
theorem shift_closing (level : Nat) (b : Bracket) : shift (level + 1) b.closing = level := by
  cases b <;> rfl

/-- A character that is neither a bracket nor a comma opens and closes nothing. -/
theorem shift_of_plain {c : Char} (plain : isDelimiter c = false) (level : Nat) :
    shift level c = level := by
  simp only [isDelimiter, Bool.or_eq_false_iff, decide_eq_false_iff_not] at plain
  obtain ⟨⟨⟨⟨hopen, hclose⟩, hopen'⟩, hclose'⟩, -⟩ := plain
  simp [shift, hopen, hclose, hopen', hclose']

/-- The peak is at least the number of containers that are open at the start. -/
theorem le_peak (level : Nat) (cs : List Char) : level ≤ peak level cs := by
  cases cs with
  | nil => exact Nat.le_refl level
  | cons c cs => exact Nat.le_max_left ..

/-- The peak of two texts in a row is reached in the first or in the second. -/
theorem peak_append (level : Nat) (cs ds : List Char) :
    peak level (cs ++ ds) = max (peak level cs) (peak (cs.foldl shift level) ds) := by
  induction cs generalizing level with
  | nil =>
    show peak level ds = max level (peak level ds)
    exact (Nat.max_eq_right (le_peak level ds)).symm
  | cons c cs ih =>
    -- The induction is over all levels, since the first letter may change it.
    show max level (peak (shift level c) (cs ++ ds)) = _
    rw [ih, ← Nat.max_assoc]
    rfl

/-- A text that closes all brackets it opens and no others, with at most `height` of them open at
once. -/
structure Balanced (height : Nat) (cs : List Char) : Prop where
  foldl_shift : ∀ level, cs.foldl shift level = level
  peak_eq : ∀ level, peak level cs = level + height

namespace Balanced

/-- A text without delimiters opens and closes nothing. -/
theorem of_plain {cs : List Char} (plain : ∀ c ∈ cs, isDelimiter c = false) : Balanced 0 cs := by
  induction cs with
  | nil => exact ⟨fun _ => rfl, fun _ => rfl⟩
  | cons c cs ih =>
    -- The level stays as it is at each letter, so it is never above that at the start.
    have hc := shift_of_plain (plain c List.mem_cons_self)
    have hcs := ih fun d hd => plain d (List.mem_cons_of_mem _ hd)
    refine ⟨fun level => ?_, fun level => ?_⟩
    · rw [List.foldl_cons, hc]
      exact hcs.foldl_shift level
    · show max level (peak (shift level c) cs) = level + 0
      rw [hc, hcs.peak_eq]
      omega

/-- Two balanced texts in a row are balanced, and the higher one decides the height. -/
theorem append {height height' : Nat} {cs ds : List Char} (front : Balanced height cs)
    (back : Balanced height' ds) : Balanced (max height height') (cs ++ ds) := by
  refine ⟨fun level => ?_, fun level => ?_⟩
  · rw [List.foldl_append, front.foldl_shift, back.foldl_shift]
  · rw [peak_append, front.foldl_shift, front.peak_eq, back.peak_eq]
    omega

/-- A comma opens and closes nothing. -/
theorem cons_comma {height : Nat} {cs : List Char} (inner : Balanced height cs) :
    Balanced height (',' :: cs) := by
  refine ⟨fun level => inner.foldl_shift level, fun level => ?_⟩
  show max level (peak level cs) = level + height
  rw [inner.peak_eq]
  omega

/-- A pair of brackets adds one to the height of what is between them. -/
theorem bracketed {height : Nat} {cs : List Char} (inner : Balanced height cs) (b : Bracket) :
    Balanced (height + 1) (b.opening :: (cs ++ [b.closing])) := by
  refine ⟨fun level => ?_, fun level => ?_⟩
  · rw [List.foldl_cons, shift_opening, List.foldl_append, inner.foldl_shift]
    exact shift_closing level b
  · show max level (peak (shift level b.opening) (cs ++ [b.closing])) = level + (height + 1)
    rw [shift_opening, peak_append, inner.foldl_shift, inner.peak_eq]
    -- Of the levels in front, inside and behind, the one inside is the greatest.
    show max level (max (level + 1 + height) (max (level + 1) (shift (level + 1) b.closing))) = _
    rw [shift_closing]
    omega

end Balanced

/-- White space opens and closes nothing. -/
theorem balanced_of_blanks {ws : List Char} (blank : Blanks ws) : Balanced 0 ws :=
  .of_plain fun c hc => isDelimiter_of_isBlank (blank c hc)

mutual

/-- The text of a shape closes all brackets that it opens, and its height is the depth of the
shape. -/
theorem Node.balanced {cs : List Char} {shape : Shape} : Node cs shape → Balanced shape.depth cs
  | .emptyObject blank => (balanced_of_blanks blank).bracketed .brace
  | .object inner => by
    rw [Shape.depth, Nat.add_comm]
    exact inner.balanced.bracketed .brace
  | .emptyArray blank => (balanced_of_blanks blank).bracketed .square
  | .arrayOf blank inner blank' => by
    have hinner := ((balanced_of_blanks blank).append inner.balanced).append
      (balanced_of_blanks blank')
    rw [Nat.zero_max, Nat.max_zero] at hinner
    rw [Shape.depth, Nat.add_comm]
    exact hinner.bracketed .square
termination_by structural h => h

/-- The text of a field is as high as its shape is deep. -/
theorem OneField.balanced {cs : List Char} {field : Field} :
    OneField cs field → Balanced (Field.deepest [field]) cs
  | .leaf name => .of_plain name.plain
  | .nested name inner => by
    -- The name has no height, and the depth of the shape is all that counts.
    rw [Field.deepest, Field.deepest, Nat.max_comm]
    exact (Balanced.of_plain name.plain).append inner.balanced
termination_by structural h => h

/-- White space around a field adds nothing to its height. -/
theorem Padded.balanced {cs : List Char} {field : Field} :
    Padded cs field → Balanced (Field.deepest [field]) cs
  | .mk blank inner blank' => by
    have hfield := ((balanced_of_blanks blank).append inner.balanced).append
      (balanced_of_blanks blank')
    rw [Nat.zero_max, Nat.max_zero] at hfield
    exact hfield
termination_by structural h => h

/-- The text of fields is as high as the deepest of them. -/
theorem Fields.balanced {cs : List Char} {fields : List Field} :
    Fields cs fields → Balanced (Field.deepest fields) cs
  | .one head => head.balanced
  | .more head tail => by
    rw [← List.singleton_append, Field.deepest_append]
    exact head.balanced.append tail.balanced.cons_comma
termination_by structural h => h

end

/-- The greatest number of brackets that are open at once in a text is the depth of its shape. -/
theorem Root.peak_eq {cs : List Char} {shape : Shape} (root : Root cs shape) :
    peak 0 cs = shape.depth := by
  obtain ⟨blank, inner, blank'⟩ := root
  -- From level zero the peak of a balanced text is its height.
  have hroot := ((balanced_of_blanks blank).append inner.balanced).append
    (balanced_of_blanks blank')
  rw [hroot.peak_eq]
  omega

/-! ### Names -/

/-- A raw name that is trimmed is a proper name. -/
theorem RawName.proper {raw : List Char} (name : RawName raw) :
    ProperName (String.ofList (trim raw)) where
  ne_nil := by simpa using name.solid
  head c h := head_trim (by simpa using h)
  last c h := getLast_trim (by simpa using h)
  plain c h := name.plain c (mem_of_mem_trim (by simpa using h))

mutual

/-- The names of a shape with a text can be spelled. -/
theorem Node.proper {cs : List Char} {shape : Shape} : Node cs shape → shape.ProperNames
  | .emptyObject _ => ⟨by simp, trivial⟩
  | .object inner => inner.proper
  | .emptyArray _ => trivial
  | .arrayOf _ inner _ => inner.proper
termination_by structural h => h

/-- The name of a field is proper, and so are all names inside it. -/
theorem OneField.proper {cs : List Char} {field : Field} :
    OneField cs field → ProperName field.name ∧
      Field.EachInside (fun fields => ∀ field ∈ fields, ProperName field.name) [field]
  | .leaf name => ⟨name.proper, trivial⟩
  | .nested name inner => ⟨name.proper, inner.proper, trivial⟩
termination_by structural h => h

/-- White space around a field is no part of its name. -/
theorem Padded.proper {cs : List Char} {field : Field} :
    Padded cs field → ProperName field.name ∧
      Field.EachInside (fun fields => ∀ field ∈ fields, ProperName field.name) [field]
  | .mk _ inner _ => inner.proper
termination_by structural h => h

/-- The names of fields are proper, and so are all names inside them. -/
theorem Fields.proper {cs : List Char} {fields : List Field} :
    Fields cs fields → (∀ field ∈ fields, ProperName field.name) ∧
      Field.EachInside (fun fields => ∀ field ∈ fields, ProperName field.name) fields
  | .one head => ⟨by simpa using head.proper.1, head.proper.2⟩
  | .more head tail => by
    have hhead := head.proper
    have htail := tail.proper
    exact ⟨List.forall_mem_cons.mpr ⟨hhead.1, htail.1⟩,
      Field.eachInside_append.mpr ⟨hhead.2, htail.2⟩⟩
termination_by structural h => h

end

/-- All names of the shape of a text are proper. -/
theorem Root.proper {cs : List Char} {shape : Shape} : Root cs shape → shape.ProperNames
  | .mk _ inner _ => inner.proper

end Grammar

end DocShape
