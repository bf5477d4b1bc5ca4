import DocShape.Json.Reader
import DocShape.Shape.Cache

/-!
# `DocShape.Config`: settings of a validator

Settings are read from an object by the names of its members or from an array by position. What
is missing keeps its default, names that mean nothing are passed over, and items that mean nothing
are refused. A text may not give a name that means something twice. Counts are unsigned integers
of 64 bits.
-/

set_option autoImplicit false

namespace DocShape

/-- Settings of the cache of a validator. -/
structure CacheConfig where
  enabled : Bool := true
  maxEntries : Nat := defaultCacheCapacity
  deriving DecidableEq

/-- Settings of a validator. -/
structure Config where
  cache : CacheConfig := {}
  maxDepth : Nat := defaultMaxDepth
  deriving DecidableEq

namespace CacheConfig

/-- A large cache. -/
def production : CacheConfig := { maxEntries := 4096 }

/-- No cache. -/
def disabled : CacheConfig := { enabled := false }

end CacheConfig

namespace Config

/-- Settings for a program that runs for long. -/
def production : Config := { cache := .production }

/-- Settings for a program that is being written. -/
def development : Config := { cache := .disabled }

instance : Inhabited Config := ⟨{}⟩

end Config

/-! ### Reading -/

namespace Written

/-- The values that a record gives for its names, in their order: from an object by name, from an
array by position. -/
def slots? (names : List String) : Written → Option (List (Option Written))
  | .array items =>
    if items.length ≤ names.length then
      some ((List.range names.length).map fun position => items[position]?)
    else none
  | .object members => do
    -- Every key must be whole, also one that means nothing.
    let keyed ← members.mapM fun (key, value) => return (← WrittenText.string? key, value)
    names.mapM fun name =>
      match keyed.filter fun member => member.1 = name with
      | [] => some none
      | [(_, value)] => some (some value)
      | _ => none
  | _ => none

/-- An unsigned integer of 64 bits. -/
def count? : Written → Option Nat
  | .number (.integer (.ofNat n)) => if n < UInt64.size then some n else none
  | _ => none

/-- A truth value. -/
def bool? : Written → Option Bool
  | .bool b => some b
  | _ => none

/-- Reads a slot; an empty one keeps the default. -/
def slot? {α : Type} (read : Written → Option α) (default : α) : Option Written → Option α
  | none => some default
  | some value => read value

end Written

/-- Reads the settings of a cache. -/
def CacheConfig.ofWritten? (written : Written) : Option CacheConfig := do
  let [enabled, maxEntries] ← written.slots? ["enabled", "max_entries"] | none
  return {
    enabled := ← Written.slot? Written.bool? true enabled
    maxEntries := ← Written.slot? Written.count? defaultCacheCapacity maxEntries }

namespace Config

/-- Reads the settings of a validator. -/
def ofWritten? (written : Written) : Option Config := do
  let [cache, maxDepth] ← written.slots? ["cache", "max_depth"] | none
  return {
    cache := ← Written.slot? CacheConfig.ofWritten? {} cache
    maxDepth := ← Written.slot? Written.count? defaultMaxDepth maxDepth }

/-- Reads settings from a value. -/
def ofJson? (json : Json) : Option Config :=
  ofWritten? json.written

/-- Reads settings from a JSON text. -/
def ofText? (source : String) : Option Config :=
  (Written.read? source).bind ofWritten?

/-- The settings as a value. -/
def toJson (config : Config) : Json :=
  .ofMembers [
    ("cache", .ofMembers [
      ("enabled", .bool config.cache.enabled),
      ("max_entries", .nat config.cache.maxEntries)]),
    ("max_depth", .nat config.maxDepth)]

end Config

end DocShape
