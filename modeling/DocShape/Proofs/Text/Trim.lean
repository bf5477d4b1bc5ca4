import DocShape.Text.Blank
import Mathlib.Data.List.TakeWhile

/-!
# `DocShape.Proofs.Text.Trim`: what trimming keeps

`trim` takes the white space off the two ends of a text. The theorems:

* `trim_append_of_blanks`, `trim_append_right_of_blanks`: white space at an end changes nothing.
* `head_trim`, `getLast_trim`: what is left begins and ends with a character that is not blank.
* `trim_eq_self`: a text that begins and ends that way is left alone.
* `trim_eq_nil_iff`: nothing is left exactly of white space.
-/

set_option autoImplicit false

namespace DocShape

/-- A text of white space only. -/
def Blanks (cs : List Char) : Prop :=
  ∀ c ∈ cs, isBlank c = true

/-- No characters at all are white space. -/
theorem blanks_nil : Blanks [] := by
  simp [Blanks]

/-- White space is so character by character. -/
theorem blanks_cons {c : Char} {cs : List Char} :
    Blanks (c :: cs) ↔ isBlank c = true ∧ Blanks cs := by
  simp [Blanks]

/-- Two texts together are white space if both are. -/
theorem blanks_append {cs ds : List Char} : Blanks (cs ++ ds) ↔ Blanks cs ∧ Blanks ds := by
  simp only [Blanks, List.mem_append, or_imp, forall_and]

/-- Reversed white space is white space. -/
theorem blanks_reverse {cs : List Char} : Blanks cs.reverse ↔ Blanks cs := by
  simp [Blanks]

/-- Dropping the white space in front leaves nothing exactly of white space. -/
theorem dropWhile_isBlank_eq_nil_iff {cs : List Char} : cs.dropWhile isBlank = [] ↔ Blanks cs :=
  List.dropWhile_eq_nil_iff

/-- White space in front of a text is dropped with the white space that follows it. -/
theorem dropWhile_isBlank_append {ws : List Char} (blank : Blanks ws) (cs : List Char) :
    (ws ++ cs).dropWhile isBlank = cs.dropWhile isBlank := by
  rw [List.dropWhile_append, dropWhile_isBlank_eq_nil_iff.mpr blank]
  rfl

/-- A text that begins with a character that is not blank loses nothing in front. -/
theorem dropWhile_isBlank_cons {c : Char} (solid : isBlank c = false) (cs : List Char) :
    (c :: cs).dropWhile isBlank = c :: cs := by
  rw [List.dropWhile_cons, if_neg (by simp [solid])]

/-- A text is its white space in front and the rest. -/
theorem exists_blanks_append (cs : List Char) :
    ∃ ws, Blanks ws ∧ cs = ws ++ cs.dropWhile isBlank :=
  ⟨cs.takeWhile isBlank, fun _ h => List.mem_takeWhile_imp h,
    List.takeWhile_append_dropWhile.symm⟩

/-- What is left after dropping the white space in front does not begin with a blank. -/
theorem head_dropWhile_isBlank {cs : List Char} {c : Char}
    (h : (cs.dropWhile isBlank).head? = some c) : isBlank c = false := by
  have hsolid := List.head?_dropWhile_not isBlank cs
  rw [h] at hsolid
  simpa using hsolid

/-! ### Trimming -/

/-- White space in front of a text is trimmed. -/
theorem trim_append_of_blanks {ws : List Char} (blank : Blanks ws) (cs : List Char) :
    trim (ws ++ cs) = trim cs := by
  unfold trim
  rw [dropWhile_isBlank_append blank]

/-- White space behind a text is trimmed. -/
theorem trim_append_right_of_blanks {ws : List Char} (blank : Blanks ws) (cs : List Char) :
    trim (cs ++ ws) = trim cs := by
  unfold trim trimEnd
  rw [List.dropWhile_append]
  split
  · -- Without a solid letter there is nothing left of the first text either.
    next h =>
    have hfront : cs.dropWhile isBlank = [] := by simpa using h
    rw [dropWhile_isBlank_eq_nil_iff.mpr blank, hfront]
  · rw [List.reverse_append, dropWhile_isBlank_append (blanks_reverse.mpr blank)]

/-- A text that begins with no blank is trimmed at its end only. -/
theorem trim_cons_of_solid {c : Char} (solid : isBlank c = false) (cs : List Char) :
    trim (c :: cs) = (trimEnd (c :: cs).reverse).reverse := by
  unfold trim
  rw [dropWhile_isBlank_cons solid]

/-- A blank character behind the text is trimmed. The text is in reverse here. -/
theorem trimEnd_cons_of_blank {c : Char} (blank : isBlank c = true) (letters : List Char) :
    trimEnd (c :: letters) = trimEnd letters := by
  unfold trimEnd
  rw [List.dropWhile_cons, if_pos blank]

/-- Trimming keeps no character that was not there. -/
theorem mem_of_mem_trim {cs : List Char} {c : Char} (h : c ∈ trim cs) : c ∈ cs := by
  unfold trim trimEnd at h
  have hfront := (List.dropWhile_sublist isBlank).mem (List.mem_reverse.mp h)
  exact (List.dropWhile_sublist isBlank).mem (List.mem_reverse.mp hfront)

/-- What is left does not end with white space. -/
theorem getLast_trim {cs : List Char} {c : Char} (h : (trim cs).getLast? = some c) :
    isBlank c = false := by
  unfold trim trimEnd at h
  rw [List.getLast?_reverse] at h
  exact head_dropWhile_isBlank h

/-- What is left does not begin with white space. -/
theorem head_trim {cs : List Char} {c : Char} (h : (trim cs).head? = some c) :
    isBlank c = false := by
  -- What the second pass leaves is a suffix of the reversed text, so its last letter is the
  -- first letter that the first pass left.
  obtain ⟨dropped, -, hsplit⟩ := exists_blanks_append (cs.dropWhile isBlank).reverse
  have hfront : cs.dropWhile isBlank = trim cs ++ dropped.reverse := by
    have hreverse := congrArg List.reverse hsplit
    rw [List.reverse_reverse, List.reverse_append] at hreverse
    exact hreverse
  refine @head_dropWhile_isBlank cs c ?_
  rw [hfront, List.head?_append, h]
  rfl

/-- Nothing is left exactly of white space. -/
theorem trim_eq_nil_iff {cs : List Char} : trim cs = [] ↔ Blanks cs := by
  constructor
  · -- The white space in front was dropped, and what was behind it is white space too.
    intro h
    unfold trim trimEnd at h
    rw [List.reverse_eq_nil_iff, dropWhile_isBlank_eq_nil_iff, blanks_reverse] at h
    obtain ⟨ws, hws, hsplit⟩ := exists_blanks_append cs
    rw [hsplit]
    exact blanks_append.mpr ⟨hws, h⟩
  · intro h
    unfold trim
    rw [dropWhile_isBlank_eq_nil_iff.mpr h]
    rfl

/-- A text without white space at its two ends is left alone. -/
theorem trim_eq_self {cs : List Char} (head : ∀ c, cs.head? = some c → isBlank c = false)
    (last : ∀ c, cs.getLast? = some c → isBlank c = false) : trim cs = cs := by
  cases cs with
  | nil => rfl
  | cons c rest =>
    rw [trim_cons_of_solid (head c rfl)]
    obtain ⟨d, front, hreverse⟩ := List.exists_cons_of_ne_nil
      (show (c :: rest).reverse ≠ [] by simp)
    have hd : isBlank d = false := last d (by rw [List.getLast?_eq_head?_reverse, hreverse]; rfl)
    rw [hreverse]
    unfold trimEnd
    rw [dropWhile_isBlank_cons hd, ← hreverse, List.reverse_reverse]

end DocShape
