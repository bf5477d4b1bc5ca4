import DocShape.Proofs.Shape.Faults

/-!
# `DocShape.Proofs.Shape.Viability`: faults are found as early as can be

A text is viable if it goes on to one of the grammar. Names may repeat in it, but the brackets
have to fit the limit. `fault_at_earliest` says that a fault is found at the first character that
no viable text has there, and that what follows the character makes no difference.

* Where the reader gets, the text is viable (`Reaches.viable`). The pieces of `StateText` say what
  is missing: each open container is closed in turn, from the innermost out (`FramesText.closes`).
  A place that wants a field gets one first. None of this opens another bracket, so the limit
  holds.
* Where a character is refused, no text goes on from it (`not_viable_of_refusal`). A text of the
  grammar that fits is read, or else a name is given twice in it (`parse_of_root`), and that is
  not the fault.
-/

set_option autoImplicit false

namespace DocShape

/-- The faults of a character that cannot stand where it does. -/
def SyntaxError.OfCharacter : SyntaxError → Prop
  | .unexpectedRoot .. => True
  | .emptyFieldName .. => True
  | .unexpected .. => True
  | .trailingInput .. => True
  | .tooDeep .. => True
  | _ => False

/-- The faults of a text that ends too early. -/
def SyntaxError.OfEnd : SyntaxError → Prop
  | .empty => True
  | .unclosed .. => True
  | _ => False

namespace Grammar

/-- Some text that begins in this way is one of the grammar, and no more of its brackets are open
at once than the limit. Its names may repeat. -/
def Viable (limit : Nat) (cs : List Char) : Prop :=
  ∃ rest shape, Root (cs ++ rest) shape ∧ peak 0 (cs ++ rest) ≤ limit

/-- A text without opening brackets. -/
def OpensNone (cs : List Char) : Prop :=
  ∀ c ∈ cs, ∀ b : Bracket, c ≠ b.opening

/-- A closing bracket opens nothing. -/
theorem opensNone_closing (b : Bracket) : OpensNone [b.closing] := by
  intro c hc b' heq
  rw [List.mem_singleton.mp hc] at heq
  exact opening_ne_closing b' b heq.symm

/-- A character that opens nothing leaves at most as many brackets open. -/
theorem shift_le {c : Char} (other : ∀ b : Bracket, c ≠ b.opening) (level : Nat) :
    shift level c ≤ level := by
  rw [shift, if_neg (not_or.mpr ⟨other .brace, other .square⟩)]
  split
  · exact Nat.sub_le level 1
  · exact Nat.le_refl level

/-- Without opening brackets the peak is in front of the text. -/
theorem OpensNone.peak_eq {cs : List Char} (none : OpensNone cs) (level : Nat) :
    peak level cs = level := by
  induction cs generalizing level with
  | nil => rfl
  | cons c cs ih =>
    obtain ⟨hc, hcs⟩ := List.forall_mem_cons.mp none
    show max level (peak (shift level c) cs) = level
    rw [ih hcs]
    exact Nat.max_eq_left (shift_le hc level)

/-- The text of a shape once enough is added to it, and nothing that opens another bracket. -/
def Closes (cs : List Char) : Prop :=
  ∃ rest shape, OpensNone rest ∧ Root (cs ++ rest) shape

/-- A text closes if it does with more text behind it that opens nothing. -/
theorem Closes.of_append {cs ds : List Char} (none : OpensNone ds) (closes : Closes (cs ++ ds)) :
    Closes cs := by
  obtain ⟨rest, shape, hrest, root⟩ := closes
  rw [List.append_assoc] at root
  exact ⟨ds ++ rest, shape, List.forall_mem_append.mpr ⟨none, hrest⟩, root⟩

/-- Nothing is needed for it but what closes brackets, so the limit stays as it was. -/
theorem Closes.viable {limit : Nat} {cs : List Char} (closes : Closes cs)
    (fits : peak 0 cs ≤ limit) : Viable limit cs := by
  obtain ⟨rest, shape, none, root⟩ := closes
  refine ⟨rest, shape, root, ?_⟩
  have hopen : openAfter cs ≤ peak 0 cs := openAfter_le_peak List.prefix_rfl
  rw [peak_append, none.peak_eq]
  exact Nat.max_le.mpr ⟨fits, Nat.le_trans hopen fits⟩

end Grammar

namespace Shape

namespace Reader

open Grammar

/-- An object can be closed behind each of its fields. -/
theorem FrontText.closed {fields : List Field} {front cs : List Char} {field : Field}
    (earlier : FrontText fields front) (last : Padded cs field) :
    Node (front ++ cs ++ [Bracket.brace.closing]) (.object (fields ++ [field])) := by
  obtain ⟨text, htext, inner⟩ := earlier.field last
  rw [htext]
  exact .object inner

/-- With a shape inside it complete, the containers in front of the shape close in turn. -/
theorem FramesText.closes {frames : List Frame} {ds cs : List Char} {shape : Shape}
    (outer : FramesText frames ds) (node : Node cs shape) : Closes (ds ++ cs) := by
  -- The induction is on the frames, from the innermost out, for whatever shape is inside them.
  induction outer generalizing cs shape with
  | outermost blank => exact ⟨[], shape, nofun, .mk blank node blanks_nil⟩
  | within outer inner ih =>
    cases inner with
    | field earlier blank name =>
      have hclosed := ih (earlier.closed (name.padded_nested blank node))
      refine .of_append (opensNone_closing .brace) ?_
      simpa using hclosed
    | element blank =>
      have hclosed := ih (.arrayOf blank node blanks_nil)
      refine .of_append (opensNone_closing .square) ?_
      simpa using hclosed

/-- The innermost open container can be closed. -/
theorem PlaceText.exists_node {place : Place} {cs : List Char} (text : PlaceText place cs) :
    ∃ rest shape, OpensNone rest ∧ Node (cs ++ rest) shape := by
  cases text with
  | fieldStart earlier blank =>
    -- Behind a comma a field has to follow. In an empty object one may.
    have name : NameLetters ['a'] := .singleton (by decide) (by decide)
    have hnode := earlier.closed (name.padded_leaf blank)
    refine ⟨['a'] ++ [Bracket.brace.closing], _, ?_, by simpa using hnode⟩
    refine List.forall_mem_append.mpr ⟨?_, opensNone_closing .brace⟩
    intro c hc b heq
    rw [heq, List.mem_singleton] at hc
    cases b <;> cases hc
  | fieldName earlier blank name =>
    have hnode := earlier.closed (name.padded_leaf blank)
    exact ⟨[Bracket.brace.closing], _, opensNone_closing .brace, by simpa using hnode⟩
  | fieldEnd inner =>
    exact ⟨[Bracket.brace.closing], _, opensNone_closing .brace, .object inner⟩
  | elementStart blank =>
    exact ⟨[Bracket.square.closing], _, opensNone_closing .square, .emptyArray blank⟩
  | elementEnd blank inner blank' =>
    exact ⟨[Bracket.square.closing], _, opensNone_closing .square, .arrayOf blank inner blank'⟩

/-- Wherever the reader gets, the text so far is viable. -/
theorem Reaches.viable {limit : Nat} {cs : List Char} {state : State} (positive : 1 ≤ limit)
    (reaches : Reaches limit cs state) : Viable limit cs := by
  cases reaches.stateText with
  | start blank =>
    -- Nothing is open yet, so this is the only state that needs the room for a bracket.
    have root := Root.mk blank (.emptyArray blanks_nil) blanks_nil
    rw [List.append_nil] at root
    refine ⟨_, .emptyArray, root, ?_⟩
    rw [root.peak_eq]
    exact positive
  | inside outer inner =>
    -- Once the innermost container is closed there is a shape, and the frames close around it.
    obtain ⟨rest, shape, none, node⟩ := inner.exists_node
    have hcloses := outer.closes node
    rw [← List.append_assoc] at hcloses
    exact (hcloses.of_append none).viable reaches.peak_le
  | @done _ shape root =>
    have hcloses : Closes cs := ⟨[], shape, nofun, by rwa [List.append_nil]⟩
    exact hcloses.viable reaches.peak_le

/-- No viable text has a character that is refused, unless it is refused for a name before it. -/
theorem not_viable_of_refusal {limit : Nat} {front : List Char} {c : Char} {state : State}
    {error : SyntaxError} (reaches : Reaches limit front state)
    (refused : state.step limit (textSize front) c = .error error)
    (other : ∀ name start, error ≠ .duplicateField name start) :
    ¬Viable limit (front ++ [c]) := by
  rintro ⟨rest, shape, root, room⟩
  let source := String.ofList (front ++ [c] ++ rest)
  have hsource : source.toList = front ++ [c] ++ rest := String.toList_ofList
  have hfault : Shape.parse source limit = .error error :=
    parse_of_refusal reaches refused (by rw [hsource, List.append_assoc]; rfl)
  rw [root.peak_eq] at room
  rw [← hsource] at root
  -- The text fits, so a name that comes twice would be its only fault.
  have hread := parse_of_root root room
  rw [hfault] at hread
  obtain ⟨-, name, start, hname⟩ := hread
  exact other name start hname

end Reader

open Grammar Reader

/-- A character is refused where it stands. -/
theorem Reader.Refusal.offset?_eq {limit offset : Nat} {c : Char} {state : State}
    {error : SyntaxError} (refused : Refusal limit offset c state error)
    (kind : error.OfCharacter) : error.offset? = some offset := by
  cases refused with
  | leafTwice => cases kind
  | shapeTwice => cases kind
  | _ => rfl

/-- Faults are found as early as can be, under every limit that allows a bracket. In front of a
character that is refused the text is viable. With the character it is not, and whatever text
begins in the same way has the same fault. A text that only ends too early is viable itself. -/
theorem fault_at_earliest {source : String} {limit : Nat} {error : SyntaxError}
    (positive : 1 ≤ limit) (h : Shape.parse source limit = .error error) :
    (error.OfCharacter → ∃ offset front c back, error.offset? = some offset ∧
      CharacterAt source offset front c back ∧ Viable limit front ∧ ¬Viable limit (front ++ [c]) ∧
      ∀ other : String, front ++ [c] <+: other.toList →
        Shape.parse other limit = .error error) ∧
    (error.OfEnd → Viable limit source.toList) := by
  rcases exists_refusal h with
    ⟨front, c, back, state, split, reaches, refused⟩ | ⟨_, reaches, hend⟩
  · have hrefusal := Refusal.of_step refused
    refine ⟨fun kind => ?_, fun kind => ?_⟩
    · refine ⟨textSize front, front, c, back, hrefusal.offset?_eq kind, .of_split split,
        reaches.viable positive, not_viable_of_refusal reaches refused ?_, ?_⟩
      · rintro name start rfl
        cases kind
      · -- The fault depends on the state and the character alone.
        rintro other ⟨rest, hother⟩
        have hsplit : other.toList = front ++ c :: rest := by
          rw [← hother, List.append_assoc]
          rfl
        exact parse_of_refusal reaches refused hsplit
    · cases hrefusal <;> cases kind
  · refine ⟨fun kind => ?_, fun _ => reaches.viable positive⟩
    cases Unfinished.of_finish hend <;> cases kind

/-- A name that was given before is no fault as long as its shape goes on, so the fault of the
first text is inside the shape. The second text lacks three brackets. -/
theorem fault_at_earliest_inside :
    let source := "{a, a [b] }"
    let front := "\x7ba, a [".toList
    let unclosed := "\x7ba, é [\x7b "
    let fault := SyntaxError.unexpected "'\x7b', '[' or ']'" 'b' 7
    Shape.parse source 3 = .error fault ∧ Viable 3 front ∧ ¬Viable 3 (front ++ ['b']) ∧
      Shape.parse "\x7ba, a [bb, a" 3 = .error fault ∧
      Shape.parse unclosed 3 = .error (.unclosed '\x7b' 8) ∧ Viable 3 unclosed.toList := by
  intro source front unclosed fault
  have hfault : Shape.parse source 3 = .error fault := by decide +kernel
  have hunclosed : Shape.parse unclosed 3 = .error (.unclosed '\x7b' 8) := by decide +kernel
  have hviable := (fault_at_earliest (by decide) hunclosed).2 trivial
  obtain ⟨offset, before, c, back, hoffset, stands, viable, refused, same⟩ :=
    (fault_at_earliest (by decide) hfault).1 trivial
  cases hoffset
  -- The offset says which character it is.
  have hstands : CharacterAt source 7 front 'b' "] \x7d".toList :=
    @CharacterAt.of_split source front "] \x7d".toList 'b' (by decide)
  obtain ⟨rfl, rfl, rfl⟩ := stands.unique hstands
  exact ⟨hfault, viable, refused, same _ (by decide), hunclosed, hviable⟩

end Shape

end DocShape
