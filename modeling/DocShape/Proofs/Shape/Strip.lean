import DocShape.Proofs.Shape.Unambiguous

/-!
# `DocShape.Proofs.Shape.Strip`: texts without the white space that says nothing

White space at an end of a text or next to a delimiter says nothing, white space between two
letters of a name does. `strip` takes away the first kind and keeps the second. A run of white
space is judged as a whole, by the characters on its two sides.

`Grammar.Root.strip_eq`: stripping a text of a shape leaves the canonical text of the shape.
-/

set_option autoImplicit false

namespace DocShape

namespace Grammar

/-- Whether white space on this side of a run says nothing: a delimiter, or the end of the
text. -/
def isEdge : Option Char → Bool
  | none => true
  | some c => isDelimiter c

/-- The first character that is not blank. -/
def firstSolid (cs : List Char) : Option Char :=
  (cs.dropWhile isBlank).head?

section

variable {α : Type} (char : α → Char)

/-- Takes away the runs of white space next to an edge. The elements of the text stand for their
characters, and `before` is the last character in front of them that is not blank. -/
def strip (before : Option Char) : List α → List α
  | [] => []
  | x :: xs =>
    if isBlank (char x) then
      if isEdge before || isEdge (firstSolid (xs.map char)) then strip before xs
      else x :: strip before xs
    else x :: strip (some (char x)) xs

/-- What is kept is decided by the characters alone. -/
theorem map_strip (before : Option Char) (xs : List α) :
    (strip char before xs).map char = strip id before (xs.map char) := by
  induction xs generalizing before with
  | nil => rfl
  | cons x xs ih =>
    simp only [List.map_cons, strip, id_eq, List.map_id_fun]
    by_cases hblank : isBlank (char x) = true
    · rw [if_pos hblank, if_pos hblank]
      split
      · exact ih before
      · rw [List.map_cons, ih before]
    · rw [if_neg hblank, if_neg hblank, List.map_cons, ih]

/-- Of what stands in front only the edge counts. -/
theorem strip_congr {before before' : Option Char} (h : isEdge before = isEdge before')
    (xs : List α) : strip char before xs = strip char before' xs := by
  induction xs with
  | nil => rfl
  | cons x xs ih =>
    simp only [strip]
    rw [h, ih]

/-- In front of an edge nothing is kept, so the edge comes next. -/
theorem strip_of_isEdge_firstSolid {before : Option Char} {xs : List α}
    (h : isEdge (firstSolid (xs.map char)) = true) :
    strip char before xs = [] ∨
      ∃ x rest, strip char before xs = x :: rest ∧ isDelimiter (char x) = true := by
  induction xs with
  | nil => exact .inl rfl
  | cons x xs ih =>
    rw [List.map_cons, firstSolid, List.dropWhile_cons] at h
    rw [strip]
    by_cases hblank : isBlank (char x) = true
    · -- The blank stands in front of an edge, so it goes.
      rw [if_pos hblank] at h
      have hrest : isEdge (firstSolid (xs.map char)) = true := h
      rw [if_pos hblank, hrest, Bool.or_true, if_pos rfl]
      exact ih hrest
    · rw [if_neg hblank] at h
      rw [if_neg hblank]
      exact .inr ⟨x, _, rfl, h⟩

end

/-- The text without the white space that says nothing. -/
def stripText (source : String) : String :=
  String.ofList (strip id none source.toList)

/-! ### The first character of a text that is not blank -/

/-- White space behind a text does not change its first solid character. -/
theorem firstSolid_append_of_blanks {ws : List Char} (blank : Blanks ws) (cs : List Char) :
    firstSolid (cs ++ ws) = firstSolid cs := by
  unfold firstSolid
  rw [List.dropWhile_append]
  split
  · next hempty =>
    rw [List.isEmpty_iff.mp hempty, dropWhile_isBlank_eq_nil_iff.mpr blank]
  · next hempty =>
    cases hrest : cs.dropWhile isBlank with
    | nil =>
      rw [hrest] at hempty
      exact absurd rfl hempty
    | cons d ds => rfl

/-- Seen from in front, a delimiter and the end of the text are the same edge. -/
theorem isEdge_firstSolid_append {d : Char} (hd : isDelimiter d = true) (cs ds : List Char) :
    isEdge (firstSolid (cs ++ d :: ds)) = isEdge (firstSolid cs) := by
  have hsolid := isBlank_of_isDelimiter hd
  unfold firstSolid
  rw [List.dropWhile_append]
  split
  · next hempty =>
    rw [List.isEmpty_iff.mp hempty, dropWhile_isBlank_cons hsolid]
    exact hd
  · next hempty =>
    cases hrest : cs.dropWhile isBlank with
    | nil =>
      rw [hrest] at hempty
      exact absurd rfl hempty
    | cons e es => rfl

/-- A text without delimiters has an edge in front only if it is white space. -/
theorem isEdge_firstSolid_of_plain {cs : List Char} (plain : ∀ c ∈ cs, isDelimiter c = false)
    (h : isEdge (firstSolid cs) = true) : Blanks cs := by
  unfold firstSolid at h
  cases hrest : cs.dropWhile isBlank with
  | nil => exact dropWhile_isBlank_eq_nil_iff.mp hrest
  | cons d ds =>
    have hmem : d ∈ cs := (List.dropWhile_sublist isBlank).mem (by rw [hrest]; simp)
    have hdelimiter : isDelimiter d = true := by
      rw [hrest] at h
      exact h
    rw [plain d hmem] at hdelimiter
    cases hdelimiter

/-- White space has no solid character. -/
theorem firstSolid_of_blanks {ws : List Char} (blank : Blanks ws) : firstSolid ws = none := by
  unfold firstSolid
  rw [dropWhile_isBlank_eq_nil_iff.mpr blank]
  rfl

/-! ### Stripping the parts of a text -/

/-- Behind white space comes what follows it. -/
theorem firstSolid_append_of_head {ws cs : List Char} (blank : Blanks ws)
    (solid : ∀ c, cs.head? = some c → isBlank c = false) : firstSolid (ws ++ cs) = cs.head? := by
  unfold firstSolid
  rw [dropWhile_isBlank_append blank]
  cases cs with
  | nil => rfl
  | cons d ds => rw [dropWhile_isBlank_cons (solid d rfl)]

/-- A whole run of white space is taken away if there is an edge on one of its sides, and is kept
otherwise. -/
theorem strip_run {ws cs : List Char} (blank : Blanks ws)
    (solid : ∀ c, cs.head? = some c → isBlank c = false) (before : Option Char) :
    strip id before (ws ++ cs) =
      if isEdge before || isEdge cs.head? then strip id before cs
      else ws ++ strip id before cs := by
  induction ws with
  | nil => simp
  | cons c ws ih =>
    obtain ⟨hc, hws⟩ := blanks_cons.mp blank
    simp only [List.cons_append, strip, List.map_id, id_eq]
    rw [if_pos hc, firstSolid_append_of_head hws solid, ih hws]
    split <;> rfl

/-- Nothing is kept of a text of white space. -/
theorem strip_of_blanks {before : Option Char} {ws : List Char} (blank : Blanks ws) :
    strip id before ws = [] := by
  have hrun := @strip_run ws [] blank (fun c h => by cases h) before
  rw [List.append_nil, List.head?_nil, isEdge, Bool.or_true, if_pos rfl] at hrun
  exact hrun

/-- White space in front of a text is taken away. -/
theorem strip_append_of_blanks {ws : List Char} (blank : Blanks ws) (cs : List Char) :
    strip id none (ws ++ cs) = strip id none cs := by
  induction ws with
  | nil => rfl
  | cons c ws ih =>
    obtain ⟨hc, hws⟩ := blanks_cons.mp blank
    rw [List.cons_append, strip, id_eq, if_pos hc]
    exact ih hws

/-- White space behind a text is taken away. -/
theorem strip_append_right_of_blanks {ws : List Char} (blank : Blanks ws) (before : Option Char)
    (cs : List Char) : strip id before (cs ++ ws) = strip id before cs := by
  induction cs generalizing before with
  | nil => exact strip_of_blanks blank
  | cons c cs ih =>
    simp only [List.cons_append, strip, List.map_id, id_eq]
    rw [firstSolid_append_of_blanks blank, ih, ih]

/-- A delimiter is kept and parts the text: what is on one side does not count on the other. -/
theorem strip_append_delimiter {d : Char} (hd : isDelimiter d = true) (before : Option Char)
    (cs ds : List Char) :
    strip id before (cs ++ d :: ds) = strip id before cs ++ d :: strip id none ds := by
  -- Along the text in front. What stands before a letter goes with it from step to step.
  induction cs generalizing before with
  | nil =>
    have hsolid : ¬isBlank (id d) = true := by
      rw [id_eq, isBlank_of_isDelimiter hd]
      exact Bool.false_ne_true
    have hedge : isEdge (some d) = isEdge none := hd
    show strip id before (d :: ds) = d :: strip id none ds
    rw [strip, if_neg hsolid, id_eq, strip_congr id hedge]
  | cons c cs ih =>
    simp only [List.cons_append, strip, List.map_id, id_eq]
    rw [isEdge_firstSolid_append hd, ih, ih]
    split
    · split <;> rfl
    · rfl

/-- Behind a letter, the text up to the next delimiter loses the white space at its end. -/
theorem strip_of_plain {before : Option Char} (inside : isEdge before = false) {cs : List Char}
    (plain : ∀ c ∈ cs, isDelimiter c = false) :
    strip id before cs = (trimEnd cs.reverse).reverse := by
  induction cs generalizing before with
  | nil => rfl
  | cons c cs ih =>
    obtain ⟨hc, hcs⟩ := List.forall_mem_cons.mp plain
    simp only [strip, List.map_id, id_eq, List.reverse_cons]
    unfold trimEnd at ih ⊢
    rw [List.dropWhile_append]
    by_cases hblank : Blanks cs
    · -- Only white space is left, so the letter is the last one or blank itself.
      rw [strip_of_blanks hblank, strip_of_blanks hblank, firstSolid_of_blanks hblank,
        dropWhile_isBlank_eq_nil_iff.mpr (blanks_reverse.mpr hblank)]
      by_cases hsolid : isBlank c = true
      · simp [hsolid, isEdge]
      · simp [hsolid]
    · -- Another letter comes later, and what stands in front of it is kept.
      have hrest : ¬(cs.reverse.dropWhile isBlank).isEmpty = true := by
        intro hempty
        rw [List.isEmpty_iff, dropWhile_isBlank_eq_nil_iff, blanks_reverse] at hempty
        exact hblank hempty
      have hedge : isEdge (firstSolid cs) = false := by
        by_contra hne
        exact hblank (isEdge_firstSolid_of_plain hcs (by simpa using hne))
      rw [if_neg hrest, List.reverse_append, List.reverse_singleton, List.singleton_append,
        ih inside hcs, inside, hedge]
      by_cases hsolid : isBlank c = true
      · rw [if_pos hsolid]
        rfl
      · have hletter : isEdge (some c) = false := hc
        rw [if_neg hsolid, ih hletter hcs]

/-- A text without delimiters is trimmed. -/
theorem strip_eq_trim {cs : List Char} (plain : ∀ c ∈ cs, isDelimiter c = false) :
    strip id none cs = trim cs := by
  obtain ⟨ws, blank, hsplit⟩ := exists_blanks_append cs
  have hplain : ∀ c ∈ cs.dropWhile isBlank, isDelimiter c = false :=
    fun c hc => plain c ((List.dropWhile_sublist isBlank).mem hc)
  rw [hsplit, strip_append_of_blanks blank, trim_append_of_blanks blank]
  cases hrest : cs.dropWhile isBlank with
  | nil => rfl
  | cons d ds =>
    -- The first solid letter stays, and behind it only the white space at the end goes.
    have hsolid : isBlank d = false := head_dropWhile_isBlank (by rw [hrest]; rfl)
    rw [hrest] at hplain
    obtain ⟨hd, hds⟩ := List.forall_mem_cons.mp hplain
    have hletter : isEdge (some d) = false := hd
    have hkept : ¬isBlank (id d) = true := by
      rw [id_eq, hsolid]
      exact Bool.false_ne_true
    rw [trim_cons_of_solid hsolid, strip, if_neg hkept, id_eq, strip_of_plain hletter hds]
    unfold trimEnd
    rw [List.reverse_cons, List.dropWhile_append]
    split
    · next hempty =>
      rw [List.isEmpty_iff.mp hempty, dropWhile_isBlank_cons hsolid]
      rfl
    · rw [List.reverse_append]
      rfl

/-- A pair of brackets is kept, whatever stands between them. -/
theorem strip_bracketed (b : Bracket) (cs : List Char) :
    strip id none (b.opening :: (cs ++ [b.closing])) =
      b.opening :: (strip id none cs ++ [b.closing]) := by
  have hopen := strip_append_delimiter (isDelimiter_opening b) none [] (cs ++ [b.closing])
  have hclose := strip_append_delimiter (isDelimiter_closing b) none cs []
  rw [List.nil_append] at hopen
  rw [hopen, hclose]
  rfl

/-! ### Stripping a text of the grammar -/

mutual

/-- Stripping the text of a shape leaves its canonical text. -/
theorem Node.strip_eq {cs : List Char} {shape : Shape} :
    Node cs shape → strip id none cs = shape.letters
  | .emptyObject blank => by
    rw [strip_bracketed .brace, strip_of_blanks blank]
    rfl
  | .object inner => by
    rw [strip_bracketed .brace, inner.strip_eq]
    rfl
  | .emptyArray blank => by
    rw [strip_bracketed .square, strip_of_blanks blank]
    rfl
  | .arrayOf blank inner blank' => by
    -- A shape begins and ends with a bracket, so the white space around it goes.
    rw [strip_bracketed .square, strip_append_right_of_blanks blank',
      strip_append_of_blanks blank, inner.strip_eq]
    rfl
termination_by structural h => h

/-- Stripping the text of a field trims its name and strips its shape. -/
theorem OneField.strip_eq {cs : List Char} {field : Field} :
    OneField cs field → strip id none cs = field.letters
  | .leaf name => by
    rw [strip_eq_trim name.plain, Field.letters, String.toList_ofList]
  | .nested name inner => by
    -- The shape begins with a bracket, which parts it from the name.
    have hinner := inner.strip_eq
    obtain ⟨b, rest, rfl⟩ := inner.exists_opening
    have hopen := isDelimiter_opening b
    have hrest := strip_append_delimiter hopen none [] rest
    rw [List.nil_append, hinner] at hrest
    rw [strip_append_delimiter hopen, strip_eq_trim name.plain, Field.letters,
      String.toList_ofList, hrest]
    rfl
termination_by structural h => h

/-- White space around a field is taken away. -/
theorem Padded.strip_eq {cs : List Char} {field : Field} :
    Padded cs field → strip id none cs = field.letters
  | .mk blank inner blank' => by
    rw [strip_append_right_of_blanks blank', strip_append_of_blanks blank, inner.strip_eq]
termination_by structural h => h

/-- Stripping the text of fields leaves their texts with commas between them. -/
theorem Fields.strip_eq {cs : List Char} {fields : List Field} :
    Fields cs fields → strip id none cs = Field.joined fields
  | .one head => by
    rw [head.strip_eq]
    rfl
  | .more head tail => by
    rw [strip_append_delimiter (by decide), head.strip_eq, tail.strip_eq]
    cases tail <;> rfl
termination_by structural h => h

end

/-- Stripping a text of a shape leaves the canonical text of the shape. -/
theorem Root.strip_eq {cs : List Char} {shape : Shape} :
    Root cs shape → strip id none cs = shape.letters
  | .mk blank inner blank' => by
    rw [strip_append_right_of_blanks blank', strip_append_of_blanks blank, inner.strip_eq]

end Grammar

end DocShape
