/-!
# `DocShape.Text.Blank`: white space

The characters with the Unicode property `White_Space`, and trimming a text by them. The set is
larger than that of `Char.isWhitespace`, which knows only the ASCII ones without the form feed and
the vertical tab. It is given by ranges of code points, as the tables of the Unicode standard are.
-/

set_option autoImplicit false

namespace DocShape

/-! ### Sets of characters -/

/-- Ranges of code points, each with its first and its last one. -/
abbrev CharRanges := List (Nat × Nat)

/-- Whether a character lies in one of the ranges. -/
def CharRanges.covers (ranges : CharRanges) (c : Char) : Bool :=
  ranges.any fun range => range.1 ≤ c.toNat && c.toNat ≤ range.2

/-! ### White space -/

/-- The ranges of the property `White_Space`, first and last code point. -/
def blankRanges : CharRanges :=
  [(0x09, 0x0D), (0x20, 0x20), (0x85, 0x85), (0xA0, 0xA0), (0x1680, 0x1680), (0x2000, 0x200A),
    (0x2028, 0x2029), (0x202F, 0x202F), (0x205F, 0x205F), (0x3000, 0x3000)]

/-- Whether a character is white space. -/
def isBlank (c : Char) : Bool :=
  blankRanges.covers c

/-- A text without the white space at its end, given and returned last letter first. -/
def trimEnd (letters : List Char) : List Char :=
  letters.dropWhile isBlank

/-- A text without the white space at its two ends. -/
def trim (letters : List Char) : List Char :=
  (trimEnd (letters.dropWhile isBlank).reverse).reverse

end DocShape
