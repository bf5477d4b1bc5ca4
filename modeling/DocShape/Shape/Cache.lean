import DocShape.Shape.Reader

/-!
# `DocShape.Shape.Cache`: shapes read before

A cache keeps shapes under the exact texts they were read from, up to its capacity. Each reading
gives its shape a stamp of its own, so that a shape found again can be told from an equal one read
anew.

What has to go when a cache would hold too much is left to a `Retention`. All that is known of one
is what its laws say: it keeps some of the entries in order, never more than the capacity, and all
of them while they fit.

A `ShapeCache` is a handle: copies of it share what is kept, also copies with another limit.
-/

set_option autoImplicit false

namespace DocShape

/-- Names the contents that the copies of a cache share. -/
abbrev CacheId := Nat

/-- A shape and the number of the reading that gave it. -/
structure StampedShape where
  shape : Shape
  stamp : Nat
  deriving DecidableEq

/-- A shape kept under the text it was read from. -/
structure CacheEntry where
  source : String
  found : StampedShape
  deriving DecidableEq

/-- What is kept of the entries, oldest first, when one was added. -/
structure Retention where
  keep : Nat → List CacheEntry → List CacheEntry
  keep_sublist : ∀ capacity entries, (keep capacity entries).Sublist entries
  length_keep_le : ∀ capacity entries, (keep capacity entries).length ≤ capacity
  keep_of_length_le : ∀ capacity entries, entries.length ≤ capacity →
    keep capacity entries = entries

namespace Retention

/-- Keeps what came first, so that a full cache takes nothing in. -/
def oldest : Retention where
  keep capacity entries := entries.take capacity
  keep_sublist capacity entries := List.take_sublist capacity entries
  length_keep_le capacity entries := by simp only [List.length_take]; omega
  keep_of_length_le _ _ h := List.take_of_length_le h

end Retention

/-- The number of shapes that a cache holds where nothing else is said. -/
def defaultCacheCapacity : Nat := 256

/-- A handle of a cache. -/
structure ShapeCache where
  id : CacheId
  capacity : Nat := defaultCacheCapacity
  maxDepth : Nat := defaultMaxDepth
  retention : Retention := .oldest

namespace ShapeCache

/-- The handle with another limit for the texts that it reads. What is kept stays shared. -/
def withMaxDepth (cache : ShapeCache) (limit : Nat) : ShapeCache :=
  { cache with maxDepth := limit }

/-- The shape kept under a text. -/
def lookup (source : String) : List CacheEntry → Option StampedShape
  | [] => none
  | entry :: rest => if entry.source = source then some entry.found else lookup source rest

/-- What is kept once a shape was read from a text that was not there. -/
def takeIn (cache : ShapeCache) (source : String) (found : StampedShape)
    (entries : List CacheEntry) : List CacheEntry :=
  cache.retention.keep cache.capacity (entries ++ [⟨source, found⟩])

end ShapeCache

end DocShape
