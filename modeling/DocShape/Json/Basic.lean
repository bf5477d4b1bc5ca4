/-!
# `DocShape.Json.Basic`: JSON values

The values that shapes describe. Three choices matter to everything above:

* integers and decimals are different numbers, so `1` and `1.0` are different values;
* a decimal is kept exactly as its digits and its power of ten, never rounded;
* the members of an object are a list in increasing order of their keys. `Members.insert` keeps
  that order, and the first entry of a key is the one that counts.
-/

set_option autoImplicit false

namespace DocShape

/-- The number `digits × 10 ^ exponent`, negated when `negative` holds. Zero has two signs. -/
structure Decimal where
  negative : Bool
  digits : Nat
  exponent : Int
  deriving DecidableEq

/-- A JSON number, written with a point or an exponent (`decimal`) or without (`integer`). -/
inductive Number where
  | integer (value : Int)
  | decimal (value : Decimal)
  deriving DecidableEq

/-- A JSON value. -/
inductive Json where
  | null
  | bool (value : Bool)
  | number (value : Number)
  | string (value : String)
  | array (items : List Json)
  | object (members : List (String × Json))

instance : Inhabited Json := ⟨.null⟩

/-- The members of an object, in increasing order of their keys. -/
abbrev Members := List (String × Json)

/-- The six kinds of JSON value. -/
inductive Kind where
  | null
  | bool
  | number
  | string
  | array
  | object
  deriving DecidableEq

namespace Decimal

/-- Moves the factors of ten of `digits` into the exponent. -/
def reduced (negative : Bool) (digits : Nat) (exponent : Int) : Decimal :=
  if digits = 0 then ⟨negative, 0, 0⟩
  else if digits % 10 = 0 then reduced negative (digits / 10) (exponent + 1)
  else ⟨negative, digits, exponent⟩
termination_by digits
decreasing_by omega

/-- The same number with a zero that has no sign. -/
def unsignedZero (d : Decimal) : Decimal :=
  if d.digits = 0 then { d with negative := false } else d

end Decimal

namespace Members

/-- The value of a key. -/
def get? (key : String) : Members → Option Json
  | [] => none
  | (k, v) :: rest => if k = key then some v else get? key rest

/-- Sets the value of a key, at the place its order gives it. -/
def insert (key : String) (value : Json) : Members → Members
  | [] => [(key, value)]
  | (k, v) :: rest =>
    if k = key then (key, value) :: rest
    else if key < k then (key, value) :: (k, v) :: rest
    else (k, v) :: insert key value rest

/-- Removes a key. -/
def erase (key : String) (members : Members) : Members :=
  members.filter fun member => member.1 ≠ key

/-- The keys, in order. -/
def keys (members : Members) : List String :=
  members.map Prod.fst

/-- Collects members one by one, so that the last of several values of a key is kept. -/
def ofList (entries : List (String × Json)) : Members :=
  entries.foldl (fun members entry => insert entry.1 entry.2 members) []

/-- No key is found among no members. -/
@[simp] theorem get?_nil (key : String) : get? key [] = none := rfl

/-- A key that is set is found with the value that it was set to. -/
@[simp] theorem get?_insert_self (key : String) (value : Json) (members : Members) :
    get? key (insert key value members) = some value := by
  induction members with
  | nil => simp [insert, get?]
  | cons entry rest ih =>
    obtain ⟨k, v⟩ := entry
    simp only [insert]
    -- The entry goes in front of this one, replaces it, or goes further back.
    split
    · simp [get?]
    · split
      · simp [get?]
      · next h _ => simp [get?, h, ih]

/-- Setting a key changes nothing about the others. -/
theorem get?_insert_of_ne {key other : String} (h : other ≠ key) (value : Json)
    (members : Members) : get? key (insert other value members) = get? key members := by
  induction members with
  | nil => simp [insert, get?, h]
  | cons entry rest ih =>
    obtain ⟨k, v⟩ := entry
    simp only [insert]
    split
    · next hk => subst hk; simp [get?, h]
    · split
      · simp [get?, h]
      · simp [get?, ih]

end Members

namespace Json

/-- The kind of a value. -/
def kind : Json → Kind
  | null => .null
  | bool _ => .bool
  | number _ => .number
  | string _ => .string
  | array _ => .array
  | object _ => .object

/-- An integer as a JSON value. -/
def int (value : Int) : Json :=
  .number (.integer value)

/-- A natural number as a JSON value. -/
def nat (value : Nat) : Json :=
  int value

/-- The members of an object given in any order. -/
def ofMembers (entries : List (String × Json)) : Json :=
  .object (Members.ofList entries)

/-- The text of a string value. -/
def text? : Json → Option String
  | string value => some value
  | _ => none

/-- The value itself, unless it is null. -/
def nonNull? : Json → Option Json
  | null => none
  | value => some value

mutual

/-- Equality of values, member by member. -/
def beq : Json → Json → Bool
  | null, null => true
  | bool a, bool b => a == b
  | number a, number b => decide (a = b)
  | string a, string b => a == b
  | array a, array b => beqItems a b
  | object a, object b => beqMembers a b
  | _, _ => false

/-- Equality of items, place by place. -/
def beqItems : List Json → List Json → Bool
  | [], [] => true
  | a :: as, b :: bs => beq a b && beqItems as bs
  | _, _ => false

/-- Equality of members, place by place. -/
def beqMembers : List (String × Json) → List (String × Json) → Bool
  | [], [] => true
  | (k, a) :: as, (l, b) :: bs => k == l && beq a b && beqMembers as bs
  | _, _ => false

end

mutual

/-- The comparison that is computed is equality of values. Derived equality does not see through
the lists inside a value, so it is proved along the three functions. -/
theorem beq_iff_eq : ∀ a b : Json, beq a b = true ↔ a = b
  | null, b => by cases b <;> simp [beq]
  | bool _, b => by cases b <;> simp [beq]
  | number _, b => by cases b <;> simp [beq]
  | string _, b => by cases b <;> simp [beq]
  | array as, b => by
    cases b <;> simp [beq]
    exact beqItems_iff_eq as _
  | object as, b => by
    cases b <;> simp [beq]
    exact beqMembers_iff_eq as _

/-- Items are compared one by one. -/
theorem beqItems_iff_eq : ∀ as bs : List Json, beqItems as bs = true ↔ as = bs
  | [], bs => by cases bs <;> simp [beqItems]
  | a :: as, bs => by
    cases bs with
    | nil => simp [beqItems]
    | cons b bs => simp [beqItems, beq_iff_eq a b, beqItems_iff_eq as bs]

/-- Members are compared one by one, keys first. -/
theorem beqMembers_iff_eq :
    ∀ as bs : List (String × Json), beqMembers as bs = true ↔ as = bs
  | [], bs => by cases bs <;> simp [beqMembers]
  | (k, a) :: as, bs => by
    cases bs with
    | nil => simp [beqMembers]
    | cons b bs =>
      obtain ⟨l, b⟩ := b
      simp [beqMembers, beq_iff_eq a b, beqMembers_iff_eq as bs]

end

instance : DecidableEq Json :=
  fun a b => decidable_of_iff (beq a b = true) (beq_iff_eq a b)

mutual

/-- The same value with the sign of every zero decimal dropped. -/
def unsignedZeros : Json → Json
  | number (.decimal d) => .number (.decimal d.unsignedZero)
  | array items => .array (unsignedZerosItems items)
  | object members => .object (unsignedZerosMembers members)
  | value => value

/-- Drops the signs in every item. -/
def unsignedZerosItems : List Json → List Json
  | [] => []
  | item :: items => unsignedZeros item :: unsignedZerosItems items

/-- Drops the signs in every member. -/
def unsignedZerosMembers : List (String × Json) → List (String × Json)
  | [] => []
  | (key, value) :: rest => (key, unsignedZeros value) :: unsignedZerosMembers rest

end

/-- Two values are equal as numbers, strings and containers: the two zero decimals agree, and a
decimal never agrees with an integer. -/
def agrees (a b : Json) : Bool :=
  decide (a.unsignedZeros = b.unsignedZeros)

end Json

end DocShape
