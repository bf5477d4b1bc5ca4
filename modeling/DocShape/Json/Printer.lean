import DocShape.Json.Basic

/-!
# `DocShape.Json.Printer`: the text of a JSON value

Texts are plain ASCII on one line: a character beyond ASCII is written as one or two `\u` escapes
of its UTF-16 units.

A decimal always shows that it is one. It is written positionally while its point falls between
the fifth place before its first digit and the sixteenth place after it, with at least one digit
behind the point, and with an exponent otherwise. An exponent always shows its sign.
-/

set_option autoImplicit false

namespace DocShape

/-- A number below sixteen as a hexadecimal digit. -/
def hexDigit (n : Nat) : Char :=
  Nat.digitChar (n % 16)

/-- The four hexadecimal digits of a UTF-16 unit. -/
def hexUnit (unit : Nat) : List Char :=
  [hexDigit (unit / 4096), hexDigit (unit / 256), hexDigit (unit / 16), hexDigit unit]

namespace Decimal

/-- Places before the first digit that are still written as zeros. -/
def leadingPlaces : Int := 5

/-- Places in front of the point that are still written out. -/
def wholePlaces : Int := 16

/-- A power of ten behind its mark, with its sign. -/
def exponentText (power : Int) : String :=
  if power < 0 then "e" ++ toString power else "e+" ++ toString power

/-- The text of the number without its sign. -/
def unsignedText (d : Decimal) : String :=
  let digits := toString d.digits
  let count := digits.length
  -- How many digits stand in front of the point.
  let point := count + d.exponent
  if d.digits = 0 then "0.0"
  -- The point stands behind all digits, between two of them, in front of them, or far away.
  else if 0 ≤ d.exponent ∧ point ≤ wholePlaces then
    digits ++ String.ofList (List.replicate d.exponent.toNat '0') ++ ".0"
  else if 0 < point ∧ point ≤ wholePlaces then
    String.ofList (digits.toList.take point.toNat) ++ "." ++
      String.ofList (digits.toList.drop point.toNat)
  else if -leadingPlaces < point ∧ point ≤ 0 then
    "0." ++ String.ofList (List.replicate (-point).toNat '0') ++ digits
  else if count = 1 then
    digits ++ exponentText (point - 1)
  else
    String.ofList (digits.toList.take 1) ++ "." ++ String.ofList (digits.toList.drop 1) ++
      exponentText (point - 1)

/-- The text of the number. -/
def text (d : Decimal) : String :=
  if d.negative then "-" ++ d.unsignedText else d.unsignedText

end Decimal

/-- The text of a number. -/
def Number.text : Number → String
  | .integer value => toString value
  | .decimal value => value.text

namespace Json

/-- A character as it stands inside a quoted text. -/
def escaped (c : Char) : List Char :=
  if c = '"' then ['\\', '"']
  else if c = '\\' then ['\\', '\\']
  else if 0x20 ≤ c.toNat ∧ c.toNat < 0x7F then [c]
  else if c.toNat < 0x10000 then '\\' :: 'u' :: hexUnit c.toNat
  else
    -- Beyond 16 bits a character is a pair of surrogates, with ten bits of the offset in each.
    let offset := c.toNat - 0x10000
    '\\' :: 'u' :: hexUnit (0xD800 + offset / 0x400) ++
      '\\' :: 'u' :: hexUnit (0xDC00 + offset % 0x400)

/-- A text in quotes. -/
def quoted (s : String) : String :=
  "\"" ++ String.ofList (s.toList.flatMap escaped) ++ "\""

mutual

/-- The text of a value. -/
def text : Json → String
  | null => "null"
  | bool true => "true"
  | bool false => "false"
  | number n => n.text
  | string s => quoted s
  | array items => "[" ++ ",".intercalate (itemTexts items) ++ "]"
  | object members => "\x7b" ++ ",".intercalate (memberTexts members) ++ "\x7d"

/-- The texts of the items of an array. -/
def itemTexts : List Json → List String
  | [] => []
  | item :: items => text item :: itemTexts items

/-- The texts of the members of an object. -/
def memberTexts : List (String × Json) → List String
  | [] => []
  | (key, value) :: rest => (quoted key ++ ":" ++ text value) :: memberTexts rest

end

end Json

end DocShape
