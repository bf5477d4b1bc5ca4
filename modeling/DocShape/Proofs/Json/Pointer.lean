import DocShape.Json.Pointer
import Mathlib.Data.List.Basic

/-!
# `DocShape.Proofs.Json.Pointer`: reading the text of a pointer

`Pointer.read?_text`: the text of a pointer reads as the pointer, whatever its steps are. An
escaped step has no slash (`slash_notMem_escape`), so the slashes of the text are those between
the steps, and `unescape` undoes `escape`. `Pointer.position?_toString`: the decimal digits of a
number name that position of an array.
-/

set_option autoImplicit false

namespace DocShape

namespace Pointer

/-! ### Escapes -/

/-- Characters are escaped one by one: a tilde and a slash get a code, the others stay. -/
theorem escape_cons (c : Char) (letters : List Char) :
    escape (c :: letters) =
      (if c = '~' then ['~', '0'] else if c = '/' then ['~', '1'] else [c]) ++ escape letters :=
  List.flatMap_cons

/-- A letter that is no tilde stands for itself. -/
theorem unescape_cons_of_ne {c : Char} (hc : c ≠ '~') (letters : List Char) :
    unescape (c :: letters) = c :: unescape letters := by
  rw [unescape]
  · intro rest h _
    exact hc h
  · intro rest h _
    exact hc h

/-- Taking the escapes out of an escaped step gives the step back. -/
theorem unescape_escape (letters : List Char) : unescape (escape letters) = letters := by
  induction letters with
  | nil => rfl
  | cons c rest ih =>
    rw [escape_cons]
    -- A tilde, a slash, or a letter that stands for itself.
    by_cases htilde : c = '~'
    · rw [if_pos htilde, htilde]
      show '~' :: unescape (escape rest) = '~' :: rest
      rw [ih]
    · by_cases hslash : c = '/'
      · rw [if_neg htilde, if_pos hslash, hslash]
        show '/' :: unescape (escape rest) = '/' :: rest
        rw [ih]
      · rw [if_neg htilde, if_neg hslash, List.singleton_append, unescape_cons_of_ne htilde, ih]

/-- No slash is left in an escaped step. -/
theorem slash_notMem_escape (letters : List Char) : '/' ∉ escape letters := by
  intro h
  obtain ⟨c, -, hc⟩ := List.mem_flatMap.mp h
  by_cases htilde : c = '~'
  · rw [if_pos htilde] at hc
    simp at hc
  · by_cases hslash : c = '/'
    · rw [if_neg htilde, if_pos hslash] at hc
      simp at hc
    · rw [if_neg htilde, if_neg hslash, List.mem_singleton] at hc
      exact hslash hc.symm

/-! ### Splitting at slashes -/

/-- A text without a slash is one part. -/
theorem splitSlashes_of_notMem {letters : List Char} (h : '/' ∉ letters) :
    splitSlashes letters = [letters] := by
  induction letters with
  | nil => rfl
  | cons c rest ih =>
    have hc : c ≠ '/' := fun hc => h (hc ▸ List.mem_cons_self)
    rw [splitSlashes, if_neg hc, ih fun hrest => h (List.mem_cons_of_mem _ hrest)]

/-- The first slash ends the first step. -/
theorem splitSlashes_append_slash {letters : List Char} (h : '/' ∉ letters)
    (rest : List Char) :
    splitSlashes (letters ++ '/' :: rest) = letters :: splitSlashes rest := by
  induction letters with
  | nil => rw [List.nil_append, splitSlashes, if_pos rfl]
  | cons c others ih =>
    have hc : c ≠ '/' := fun hc => h (hc ▸ List.mem_cons_self)
    rw [List.cons_append, splitSlashes, if_neg hc,
      ih fun hothers => h (List.mem_cons_of_mem _ hothers)]

/-- The steps of a text, behind its first slash. -/
theorem splitSlashes_steps (step : String) (rest : Pointer) :
    splitSlashes (escape step.toList ++ rest.flatMap fun step => '/' :: escape step.toList) =
      (step :: rest).map fun step => escape step.toList := by
  induction rest generalizing step with
  | nil =>
    rw [List.flatMap_nil, List.append_nil,
      splitSlashes_of_notMem (slash_notMem_escape step.toList)]
    rfl
  | cons next others ih =>
    rw [List.flatMap_cons, List.cons_append,
      splitSlashes_append_slash (slash_notMem_escape step.toList), ih next]
    rfl

/-- The text of a pointer reads as the pointer. -/
theorem read?_text (pointer : Pointer) : read? (text pointer) = some pointer := by
  -- Between two slashes of the text stands one step, escaped.
  have unescaped (steps : Pointer) :
      (steps.map fun step => escape step.toList).map
        (fun step => String.ofList (unescape step)) = steps := by
    rw [List.map_map]
    conv_rhs => rw [← List.map_id steps]
    refine List.map_congr_left fun step _ => ?_
    show String.ofList (unescape (escape step.toList)) = step
    rw [unescape_escape, String.ofList_toList]
  unfold read? text
  rw [String.toList_ofList]
  cases pointer with
  | nil => rfl
  | cons step rest =>
    rw [List.flatMap_cons, List.cons_append]
    show some ((splitSlashes _).map fun step => String.ofList (unescape step)) = _
    rw [splitSlashes_steps, unescaped]

/-! ### Positions -/

/-- The decimal digits of a number have its value. -/
theorem digitsValue_toDigits (number : Nat) : digitsValue (Nat.toDigits 10 number) = number := by
  have h := Nat.ofDigitChars_ten_toDigits (n := number)
  rw [Nat.ofDigitChars_eq_foldl] at h
  exact h

/-- Only the digits of zero start with a zero. -/
theorem eq_zero_of_head_toDigits {number : Nat}
    (h : (Nat.toDigits 10 number).head? = some '0') : number = 0 := by
  induction number using Nat.strongRecOn with
  | _ number ih =>
    by_cases hsmall : number < 10
    · rw [Nat.toDigits_of_lt_base hsmall, List.head?_cons, Option.some.injEq] at h
      exact Nat.digitChar_eq_zero.mp h
    · -- Before its last digit the number has those of a tenth of it, which is not zero.
      rw [Nat.toDigits_of_base_le (by decide) (by omega),
        List.head?_append_of_ne_nil _ Nat.toDigits_ne_nil] at h
      have := ih (number / 10) (by omega) h
      omega

/-- The digits of a number name its position. -/
theorem position?_toString (number : Nat) : position? (toString number) = some number := by
  have hdigits : (toString number).toList = Nat.toDigits 10 number := by
    rw [Nat.toString_eq_ofList_toDigits, String.toList_ofList]
  -- The three ways in which a step fails to be a position are out.
  have hall : (Nat.toDigits 10 number).all Char.isDigit = true := by
    rw [List.all_eq_true]
    intro c hc
    exact Nat.isDigit_of_mem_toDigits (by decide) (by decide) hc
  have hzero : ¬((Nat.toDigits 10 number).head? = some '0' ∧
      (Nat.toDigits 10 number).length ≠ 1) := by
    rintro ⟨hhead, hlength⟩
    rw [eq_zero_of_head_toDigits hhead] at hlength
    exact hlength rfl
  unfold position?
  simp only [hdigits]
  rw [if_neg, digitsValue_toDigits]
  rintro (h | h | h)
  · exact Nat.toDigits_ne_nil h
  · exact h hall
  · exact hzero h

end Pointer

namespace Json

/-- Following the text of a pointer is following its steps. -/
theorem atPointer?_text (value : Json) (pointer : Pointer) :
    value.atPointer? (Pointer.text pointer) = value.at? pointer := by
  unfold atPointer?
  rw [Pointer.read?_text]
  rfl

end Json

end DocShape
