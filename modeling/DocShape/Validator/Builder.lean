import DocShape.Config
import DocShape.Session

/-!
# `DocShape.Validator.Builder`: building validators

A builder collects a schema, a catalog and settings in any order. Only the last step,
`Builder.build`, gives the validator a cache, as the settings say.
-/

set_option autoImplicit false

namespace DocShape

/-- A validator in the making. -/
structure Builder where
  schema : Schema := ∅
  catalog : Catalog := default
  config : Config := {}

instance : Inhabited Builder := ⟨{}⟩

/-- One step of building. -/
inductive BuildStep where
  /-- Names the entry of a field. -/
  | entry (field : String) (entry : Entry)
  /-- Replaces all entries. -/
  | schema (schema : Schema)
  /-- Replaces the catalog. -/
  | catalog (catalog : Catalog)
  /-- Replaces the settings. -/
  | config (config : Config)

namespace Builder

/-- Names the entry of a field. -/
def entry (builder : Builder) (field : String) (entry : Entry) : Builder :=
  { builder with schema := builder.schema.insert field entry }

/-- Names the rule of a field. -/
def rule (builder : Builder) (field : String) (rule : Rule) : Builder :=
  builder.entry field (.rule rule)

/-- Names the validator of a field. -/
def nested (builder : Builder) (field : String) (validator : Validator) : Builder :=
  builder.entry field (.nested validator)

/-- Takes one step. -/
def step (builder : Builder) : BuildStep → Builder
  | .entry field entry => builder.entry field entry
  | .schema schema => { builder with schema }
  | .catalog catalog => { builder with catalog }
  | .config config => { builder with config }

/-- Takes steps in order. -/
def steps (builder : Builder) (steps : List BuildStep) : Builder :=
  steps.foldl step builder

/-- The validator, with a cache of its own if the settings ask for one. -/
def build (builder : Builder) : Session Validator := do
  let cache ←
    if builder.config.cache.enabled then
      some <$> ShapeCache.fresh builder.config.cache.maxEntries builder.config.maxDepth
    else pure none
  -- Without a cache no identity is used up, and texts are read anew each time.
  return {
    schema := builder.schema
    catalog := builder.catalog
    cache
    maxDepth := builder.config.maxDepth }

end Builder

namespace Validator

/-- A validator with a schema and nothing else chosen. -/
def ofSchema (schema : Schema) : Session Validator :=
  Builder.build { schema }

end Validator

end DocShape
