import DocShape.Description
import DocShape.Validator.Builder

/-!
# `DocShape.Validator.Describe`: describing validators

The description of a catalog shows its next message. It asks for the message like any other user
of the catalog, so describing a numbered catalog moves its counter on. Parts are described in the
order in which they are written.
-/

set_option autoImplicit false

namespace DocShape

/-- Describes a function, which cannot be looked into. -/
def describeFunction {α : Type} (function : Option α) : Description :=
  .optional (function.map fun _ => .text "<function>")

/-- Describes a rule. -/
def Rule.describe (rule : Rule) : Description :=
  .record "Rule" [("test", describeFunction rule.test), ("set", describeFunction rule.set)]

/-- Describes a catalog. -/
def Catalog.describe (catalog : Catalog) : Session Description := do
  return .record "ErrorCatalog" [("required", .text (← catalog.required))]

/-- Describes a cache. -/
def ShapeCache.describe (cache : ShapeCache) : Description :=
  .record "PropexCache" [("capacity", .nat cache.capacity), ("max_depth", .nat cache.maxDepth)]

/-- Describes the settings of a cache. -/
def CacheConfig.describe (config : CacheConfig) : Description :=
  .record "CacheConfig" [("enabled", .bool config.enabled),
    ("max_entries", .nat config.maxEntries)]

/-- Describes settings. -/
def Config.describe (config : Config) : Description :=
  .record "ValidatorConfig" [
    ("cache", config.cache.describe), ("max_depth", .nat config.maxDepth)]

mutual

/-- Describes an entry of a schema. -/
def Entry.describe : Entry → Session Description
  | .rule rule => return .wrapper "Rule" rule.describe
  | .nested validator => return .wrapper "Nested" (← validator.describe)

/-- Describes entries in order. -/
def Entry.describeAll : List (String × Entry) → Session (List (String × Description))
  | [] => return []
  | (field, entry) :: rest => do
    let description ← entry.describe
    let descriptions ← Entry.describeAll rest
    return (field, description) :: descriptions

/-- Describes a validator. -/
def Validator.describe : Validator → Session Description
  | ⟨⟨entries⟩, catalog, cache, _⟩ => do
    -- Nested validators ask their catalogs first. The limit is not shown.
    let entries ← Entry.describeAll entries
    let catalog ← catalog.describe
    return .record "Validator" [
      ("schema", .map entries), ("catalog", catalog),
      ("cache", .optional (cache.map ShapeCache.describe))]

end

/-- Describes a schema. -/
def Schema.describe (schema : Schema) : Session Description := do
  return .map (← Entry.describeAll (OrderedMap.entries schema))

/-- Describes a builder. -/
def Builder.describe (builder : Builder) : Session Description := do
  let schema ← builder.schema.describe
  let catalog ← builder.catalog.describe
  return .record "ValidatorBuilder" [
    ("schema", schema), ("catalog", catalog), ("config", builder.config.describe)]

end DocShape
