import DocShape.Validator.Evaluation

/-!
# `DocShape.Session`: what validators share

Validators are values. What changes while they work is kept in a `Store`: the counters of their
catalogs, the contents of their caches, and the journal of what was done. Copies of a validator
name the same counters and the same contents.
-/

set_option autoImplicit false

namespace DocShape

/-- What validators share and change. -/
structure Store where
  /-- The counters that catalogs use. -/
  counters : Counters := fun _ => 0
  /-- The contents of the caches, oldest entries first. -/
  contents : CacheId → List CacheEntry := fun _ => []
  /-- The number of shapes read so far, which is the stamp of the next one. -/
  readings : Nat := 0
  /-- The next counter that no catalog uses. -/
  nextCounter : CounterId := 0
  /-- The next contents that no cache uses. -/
  nextCache : CacheId := 0
  /-- All notes so far, oldest first. -/
  journal : List Note := []

instance : Inhabited Store := ⟨{}⟩

/-- Something that validators do. -/
abbrev Session := StateM Store

namespace Session

/-- Adds a note to the journal. -/
def note (note : Note) : Session Unit :=
  modify fun store => { store with journal := store.journal ++ [note] }

/-- Logs an event. -/
def log (event : Event) : Session Unit :=
  note (.event event)

/-- Does something and gives the events that it logs along with its result. -/
def withEvents {α : Type} (act : Session α) : Session (α × List Event) := do
  -- The journal only grows, so the new notes are those behind the old ones.
  let before := (← get).journal.length
  let result ← act
  let notes := (← get).journal.drop before
  return (result, notes.filterMap Note.event?)

end Session

namespace Catalog

/-- Asks for the next message. -/
def required (catalog : Catalog) : Session String := do
  let counters := (← get).counters
  let message := catalog.message counters
  modify fun store => { store with counters := catalog.advance counters }
  Session.note (.requested catalog message)
  return message

/-- A catalog of numbered messages with a counter of its own. -/
def fresh (messages : Nat → String) : Session Catalog := do
  let counter := (← get).nextCounter
  modify fun store => { store with nextCounter := counter + 1 }
  return numbered messages counter

end Catalog

/-- Reads a shape text and stamps the shape. -/
def Shape.read (source : String) (limit : Nat) : Session (Except SyntaxError StampedShape) := do
  match Shape.parse source limit with
  | .error error => return .error error
  | .ok shape =>
    let stamp := (← get).readings
    modify fun store => { store with readings := stamp + 1 }
    return .ok ⟨shape, stamp⟩

namespace ShapeCache

/-- A cache with contents of its own. -/
def fresh (capacity : Nat := defaultCacheCapacity) (maxDepth : Nat := defaultMaxDepth) :
    Session ShapeCache := do
  let id := (← get).nextCache
  modify fun store => { store with nextCache := id + 1 }
  return { id, capacity, maxDepth }

/-- What the cache holds. -/
def contents (cache : ShapeCache) : Session (List CacheEntry) := do
  return (← get).contents cache.id

/-- Replaces what the cache holds. -/
def setContents (cache : ShapeCache) (entries : List CacheEntry) : Session Unit :=
  modify fun store =>
    { store with contents := fun id => if id = cache.id then entries else store.contents id }

/-- The shape of a text: the one that is kept, or else a new one, which is then kept. A text that
cannot be read leaves the cache as it is. -/
def getOrParse (cache : ShapeCache) (source : String) :
    Session (Except SyntaxError StampedShape) := do
  match lookup source (← cache.contents) with
  | some found =>
    Session.log (.cacheHit source)
    return .ok found
  | none =>
    match ← Shape.read source cache.maxDepth with
    | .error error => return .error error
    | .ok found =>
      Session.log (.parsed source found.shape.depth)
      -- The limit is looked at when a text is read, and not again when it is found.
      cache.setContents (cache.takeIn source found (← cache.contents))
      return .ok found

/-- The number of shapes that are kept. -/
def length (cache : ShapeCache) : Session Nat := do
  return (← cache.contents).length

/-- Whether no shape is kept. -/
def isEmpty (cache : ShapeCache) : Session Bool := do
  return (← cache.length) == 0

/-- Forgets all shapes. -/
def clear (cache : ShapeCache) : Session Unit := do
  cache.setContents []
  Session.log .cacheCleared

end ShapeCache

end DocShape
