import DocShape.Json.Basic

/-!
# `DocShape.Rule.Basic`: rules for leaf fields

A rule has two halves, and either may be missing. Its test looks at the value of a field and may
answer with a message, which makes the field fail. Its setter writes a field that passed into the
valid members collected so far, of which it may change any. Without a test every value passes,
without a setter the value is kept under the name of its field.
-/

set_option autoImplicit false

namespace DocShape

/-- The field that a setter is called for. -/
structure FieldContext where
  name : String
  value : Json

/-- A test of a value. An answer is the message of a failure. -/
abbrev Check := Json → Option String

/-- A change of the valid members. -/
abbrev Setter := FieldContext → Members → Members

/-- A rule for a leaf field. -/
structure Rule where
  test : Option Check
  set : Option Setter

namespace Rule

/-- The rule that lets every value pass and keeps it. -/
def passthrough : Rule :=
  ⟨none, none⟩

instance : Inhabited Rule := ⟨passthrough⟩

/-- The rule with a test and no setter. -/
def ofTest (test : Check) : Rule :=
  ⟨some test, none⟩

/-- The rule with another test. -/
def withTest (rule : Rule) (test : Check) : Rule :=
  { rule with test := some test }

/-- The rule with another setter. -/
def withSet (rule : Rule) (set : Setter) : Rule :=
  { rule with set := some set }

/-- Whether the rule has a test. -/
def hasTest (rule : Rule) : Bool :=
  rule.test.isSome

/-- Whether the rule has a setter. -/
def hasSet (rule : Rule) : Bool :=
  rule.set.isSome

/-- The message of a value that fails. -/
def check (rule : Rule) (value : Json) : Option String :=
  rule.test.bind fun test => test value

/-- Writes a value that passed. -/
def assign (rule : Rule) (field : FieldContext) (valid : Members) : Members :=
  match rule.set with
  | some set => set field valid
  | none => Members.insert field.name field.value valid

/-- The rule that lets everything pass has nothing to say. -/
@[simp] theorem check_passthrough (value : Json) : passthrough.check value = none := rfl

/-- It keeps the value under the name of its field. -/
@[simp] theorem assign_passthrough (field : FieldContext) (valid : Members) :
    passthrough.assign field valid = Members.insert field.name field.value valid := rfl

end Rule

end DocShape
