import DocShape.Catalog
import DocShape.OrderedMap
import DocShape.Rule.Basic
import DocShape.Shape.Cache

/-!
# `DocShape.Validator.Basic`: validators and their schemas

A schema says for some fields, by name, how their values are looked at: by a rule or by another
validator. A validator has a schema, the catalog of its messages, and a way to read shape texts,
with or without a cache.

What a name resolves to has three cases. A rule that the schema names is told apart from the
default rule, even if it does the same.
-/

set_option autoImplicit false

namespace DocShape

mutual

/-- How the values of one field are looked at. -/
inductive Entry where
  /-- By a rule. -/
  | rule (rule : Rule)
  /-- By another validator. -/
  | nested (validator : Validator)

/-- Looks at documents. -/
structure Validator where
  /-- The entries of its fields. -/
  schema : OrderedMap Entry
  /-- The messages of missing values. -/
  catalog : Catalog
  /-- The cache of shape texts, if there is one. -/
  cache : Option ShapeCache
  /-- The limit for shape texts. -/
  maxDepth : Nat

end

instance : Inhabited Entry := ⟨.rule default⟩
instance : Inhabited Validator := ⟨⟨∅, default, none, defaultMaxDepth⟩⟩

/-- The entries of fields by name, in order of insertion. -/
abbrev Schema := OrderedMap Entry

/-- What the name of a field resolves to. -/
inductive Resolution where
  /-- The schema does not name the field. -/
  | default
  /-- The schema names a rule. -/
  | rule (rule : Rule)
  /-- The schema names a validator. -/
  | nested (validator : Validator)

namespace Resolution

/-- The rule for a leaf field. A validator is of no use there, so the default rule stands in. -/
def leafRule : Resolution → Rule
  | default => .passthrough
  | rule named => named
  | nested _ => .passthrough

/-- Whether a validator was named. -/
def isNested : Resolution → Bool
  | nested _ => true
  | _ => false

/-- Whether the leaf rule is the default rule and not one that the schema names. -/
def isDefaultRule : Resolution → Bool
  | rule _ => false
  | _ => true

end Resolution

namespace Schema

/-- What a name resolves to. -/
def resolve (schema : Schema) (name : String) : Resolution :=
  match OrderedMap.get? schema name with
  | none => .default
  | some (.rule rule) => .rule rule
  | some (.nested validator) => .nested validator

end Schema

namespace Validator

/-- What the name of a field resolves to. -/
def resolve (validator : Validator) (name : String) : Resolution :=
  Schema.resolve validator.schema name

end Validator

end DocShape
