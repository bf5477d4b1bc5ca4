import DocShape.Json.Written
import DocShape.Text.Place

/-!
# `DocShape.Json.Reader`: reading a JSON text

The JSON grammar without extensions: no comments, no trailing commas, no leading zeros, no control
character inside quotes, and nothing but blanks around the one value.

`Written.read?` gives the text as written, `Json.read?` its value. A number without point and
exponent is an integer while it fits into 64 bits, signed or unsigned, and a decimal beyond that.
A negative zero is a decimal too, because no integer has that sign.
-/

set_option autoImplicit false

namespace DocShape

namespace Json.Reader

/-- The blanks of the JSON grammar. -/
def isBlank (c : Char) : Bool :=
  c == ' ' || c == '\t' || c == '\n' || c == '\r'

/-- The text behind its leading blanks. -/
def skipBlanks (cs : List Char) : List Char :=
  cs.dropWhile isBlank

/-! ### Numbers -/

/-- A run of at least one decimal digit. -/
def digits? (cs : List Char) : Option (List Char × List Char) :=
  let digits := cs.takeWhile Char.isDigit
  if digits.isEmpty then none else some (digits, cs.dropWhile Char.isDigit)

/-- The whole part of a number: one zero, or digits that start with another one. -/
def whole? (cs : List Char) : Option (List Char × List Char) :=
  (digits? cs).filter fun found => found.1.head? ≠ some '0' ∨ found.1.length = 1

/-- The digits behind a point, or none if there is no point. -/
def fraction? : List Char → Option (Option (List Char) × List Char)
  | '.' :: cs => (digits? cs).map fun (found, rest) => (some found, rest)
  | cs => some (none, cs)

/-- The power behind an exponent mark, or none if there is no mark. -/
def exponent? : List Char → Option (Option Int × List Char)
  | c :: cs =>
    if c = 'e' ∨ c = 'E' then
      match cs with
      | '-' :: cs =>
        (digits? cs).map fun (found, rest) => (some (-(digitsValue found : Int)), rest)
      | '+' :: cs => (digits? cs).map fun (found, rest) => (some (digitsValue found : Int), rest)
      | cs => (digits? cs).map fun (found, rest) => (some (digitsValue found : Int), rest)
    else some (none, c :: cs)
  | [] => some (none, [])

/-- The integers that stay integers: those of 64 bits, signed or unsigned. -/
def isExact (n : Int) : Bool :=
  decide (Int64.minValue.toInt ≤ n ∧ n < UInt64.size)

/-- The number that its parts stand for. -/
def number (negative : Bool) (whole : List Char) (fraction : Option (List Char))
    (exponent : Option Int) : Number :=
  -- All digits are read as one integer, and the exponent makes up for those behind the point.
  let digits := digitsValue (whole ++ fraction.getD [])
  let magnitude : Int := digits
  let value := if negative then -magnitude else magnitude
  if fraction = none ∧ exponent = none ∧ isExact value ∧ ¬(negative ∧ value = 0) then
    .integer value
  else
    .decimal (.reduced negative digits (exponent.getD 0 - (fraction.getD []).length))

/-- A number and what follows it. -/
def number? (cs : List Char) : Option (Number × List Char) := do
  let (negative, cs) := match cs with
    | '-' :: cs => (true, cs)
    | cs => (false, cs)
  let (whole, cs) ← whole? cs
  let (fraction, cs) ← fraction? cs
  let (exponent, cs) ← exponent? cs
  return (number negative whole fraction exponent, cs)

/-! ### Quoted texts -/

/-- What one escape or one plain character contributes: a character, or a UTF-16 unit. -/
inductive Piece where
  | char (c : Char)
  | unit (value : Nat)

/-- Puts surrogate pairs together; a half without its other half becomes `none`. -/
def joinPairs : List Piece → WrittenText
  | [] => []
  | .char c :: rest => some c :: joinPairs rest
  | .unit high :: .unit low :: rest =>
    if 0xD800 ≤ high ∧ high < 0xDC00 ∧ 0xDC00 ≤ low ∧ low < 0xE000 then
      some (Char.ofNat (0x10000 + (high - 0xD800) * 0x400 + (low - 0xDC00))) :: joinPairs rest
    -- What follows a lone half is read anew: it may be the first half of another pair.
    else if 0xD800 ≤ high ∧ high < 0xE000 then none :: joinPairs (.unit low :: rest)
    else some (Char.ofNat high) :: joinPairs (.unit low :: rest)
  | .unit value :: rest =>
    if 0xD800 ≤ value ∧ value < 0xE000 then none :: joinPairs rest
    else some (Char.ofNat value) :: joinPairs rest

/-- The value of a hexadecimal digit. -/
def hexValue? (c : Char) : Option Nat :=
  if '0' ≤ c ∧ c ≤ '9' then some (c.toNat - '0'.toNat)
  else if 'a' ≤ c ∧ c ≤ 'f' then some (c.toNat - 'a'.toNat + 10)
  else if 'A' ≤ c ∧ c ≤ 'F' then some (c.toNat - 'A'.toNat + 10)
  else none

/-- The unit named by four hexadecimal digits. -/
def unit? (a b c d : Char) : Option Nat := do
  return 4096 * (← hexValue? a) + 256 * (← hexValue? b) + 16 * (← hexValue? c) + (← hexValue? d)

/-- The character that a one-letter escape names. -/
def escape? : Char → Option Char
  | '"' => some '"'
  | '\\' => some '\\'
  | '/' => some '/'
  | 'b' => some '\x08'
  | 'f' => some '\x0c'
  | 'n' => some '\n'
  | 'r' => some '\r'
  | 't' => some '\t'
  | _ => none

/-- Reads up to the closing quote. `pieces` are those read so far, last first. -/
def pieces? (pieces : List Piece) : List Char → Option (List Piece × List Char)
  | '"' :: rest => some (pieces.reverse, rest)
  | '\\' :: 'u' :: a :: b :: c :: d :: rest => do
    let value ← unit? a b c d
    pieces? (.unit value :: pieces) rest
  | '\\' :: c :: rest => do
    let c ← escape? c
    pieces? (.char c :: pieces) rest
  -- Control characters may stand in a text as escapes only.
  | c :: rest => if c.toNat < 0x20 then none else pieces? (.char c :: pieces) rest
  | [] => none

/-- A text behind its opening quote. -/
def quoted? (cs : List Char) : Option (WrittenText × List Char) :=
  (pieces? [] cs).map fun (pieces, rest) => (joinPairs pieces, rest)

/-! ### Values

The first argument bounds the nesting of the calls. Between two calls at least every second one
reads a character, so twice the length of the text is enough. -/

mutual

/-- A value and what follows it. -/
def value? : Nat → List Char → Option (Written × List Char)
  | 0, _ => none
  | fuel + 1, cs =>
    match skipBlanks cs with
    | 'n' :: 'u' :: 'l' :: 'l' :: rest => some (.null, rest)
    | 't' :: 'r' :: 'u' :: 'e' :: rest => some (.bool true, rest)
    | 'f' :: 'a' :: 'l' :: 's' :: 'e' :: rest => some (.bool false, rest)
    | '"' :: rest => (quoted? rest).map fun (characters, rest) => (.text characters, rest)
    | '[' :: rest =>
      match skipBlanks rest with
      | ']' :: rest => some (.array [], rest)
      | rest => items? fuel [] rest
    | '\x7b' :: rest =>
      match skipBlanks rest with
      | '\x7d' :: rest => some (.object [], rest)
      | rest => members? fuel [] rest
    | cs => (number? cs).map fun (n, rest) => (.number n, rest)

/-- The rest of an array, from an item on. `items` are those read so far, last first. -/
def items? : Nat → List Written → List Char → Option (Written × List Char)
  | 0, _, _ => none
  | fuel + 1, items, cs => do
    let (item, rest) ← value? fuel cs
    match skipBlanks rest with
    | ',' :: rest => items? fuel (item :: items) rest
    | ']' :: rest => some (.array (item :: items).reverse, rest)
    | _ => none

/-- The rest of an object, from a key on. `members` are those read so far, last first. -/
def members? : Nat → List (WrittenText × Written) → List Char → Option (Written × List Char)
  | 0, _, _ => none
  | fuel + 1, members, cs => do
    let '"' :: rest := skipBlanks cs | none
    let (key, rest) ← quoted? rest
    let ':' :: rest := skipBlanks rest | none
    let (value, rest) ← value? fuel rest
    match skipBlanks rest with
    | ',' :: rest => members? fuel ((key, value) :: members) rest
    | '\x7d' :: rest => some (.object ((key, value) :: members).reverse, rest)
    | _ => none

end

end Json.Reader

/-- Reads a text that holds one JSON value. -/
def Written.read? (source : String) : Option Written := do
  let cs := source.toList
  let (written, rest) ← Json.Reader.value? (2 * cs.length + 2) cs
  if (Json.Reader.skipBlanks rest).isEmpty then some written else none

/-- The value of a text that holds one JSON value. -/
def Json.read? (source : String) : Option Json :=
  (Written.read? source).bind Written.value?

end DocShape
