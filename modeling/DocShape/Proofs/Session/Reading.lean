import DocShape.Validator.Builder
import DocShape.Proofs.Validator.Answers

/-!
# `DocShape.Proofs.Session.Reading`: reading shape texts in a session

A validator reads a shape text through its cache if it has one. `ShapeCache.run_getOrParse` says
all that this can do: find the shape, refuse the text, or read the text and keep its shape.

What a cache holds is sound if every shape is the one that its text reads as under the limit of
the cache. A sound cache answers what reading answers (`Validator.CacheSound.parse`), up to the
stamp of the shape, and it stays sound: a text that is refused is not kept, and dropping shapes
does no harm. A new cache is sound (`Builder.cacheSound_build`).
-/

set_option autoImplicit false

namespace DocShape

namespace Session

variable {α β : Type}

/-- The store that a session leaves behind. -/
def after (act : Session α) (store : Store) : Store :=
  (act.run store).2

/-- Two parts of a session in a row: the second starts where the first ends. -/
theorem run_bind (first : Session α) (next : α → Session β) (store : Store) :
    (first >>= next).run store = (next (first.answer store)).run (first.after store) :=
  rfl

end Session

namespace Store

/-- The store with more notes in its journal. -/
def write (store : Store) (notes : List Note) : Store :=
  { store with journal := store.journal ++ notes }

/-- The store with other contents of one cache. -/
def hold (store : Store) (id : CacheId) (entries : List CacheEntry) : Store :=
  { store with contents := fun other => if other = id then entries else store.contents other }

/-- The store once another shape was stamped. -/
def stamped (store : Store) : Store :=
  { store with readings := store.readings + 1 }

/-- A cache holds what it was given. -/
@[simp] theorem contents_hold_self (store : Store) (id : CacheId) (entries : List CacheEntry) :
    (store.hold id entries).contents id = entries := by
  simp [hold]

end Store

/-- Reading a text stamps its shape and changes nothing else. -/
theorem Shape.run_read (source : String) (limit : Nat) (store : Store) :
    (Shape.read source limit).run store =
      match Shape.parse source limit with
      | .error error => (.error error, store)
      | .ok shape => (.ok ⟨shape, store.readings⟩, store.stamped) := by
  unfold Shape.read
  cases Shape.parse source limit <;> rfl

namespace ShapeCache

/-- A cache finds the shape of a text, or reads the text and keeps the shape. -/
theorem run_getOrParse (cache : ShapeCache) (source : String) (store : Store) :
    (cache.getOrParse source).run store =
      match lookup source (store.contents cache.id) with
      | some found => (.ok found, store.write [.event (.cacheHit source)])
      | none =>
        match Shape.parse source cache.maxDepth with
        | .error error => (.error error, store)
        | .ok shape =>
          (.ok ⟨shape, store.readings⟩,
            (store.stamped.write [.event (.parsed source shape.depth)]).hold cache.id
              (cache.takeIn source ⟨shape, store.readings⟩ (store.contents cache.id))) := by
  have hanswer : cache.contents.answer store = store.contents cache.id := rfl
  have hafter : cache.contents.after store = store := rfl
  -- The function looks the text up first, and reads it only if it is not found.
  unfold getOrParse
  rw [Session.run_bind, hanswer, hafter]
  cases lookup source (store.contents cache.id) with
  | some found => rfl
  | none =>
    simp only [Session.run_bind, Session.answer, Session.after, Shape.run_read]
    cases Shape.parse source cache.maxDepth <;> rfl

/-- An entry that is found is one that is held. -/
theorem mem_of_lookup {source : String} {entries : List CacheEntry} {found : StampedShape}
    (h : lookup source entries = some found) : ⟨source, found⟩ ∈ entries := by
  induction entries with
  | nil => cases h
  | cons entry rest ih =>
    unfold lookup at h
    split at h
    · next hsource =>
      cases h
      subst hsource
      exact List.mem_cons_self
    · exact List.mem_cons_of_mem _ (ih h)

/-- A cache that was cleared holds nothing. -/
theorem contents_after_clear (cache : ShapeCache) (store : Store) :
    (cache.clear.after store).contents cache.id = [] :=
  Store.contents_hold_self store cache.id []

/-- Every shape that the cache holds is what its text reads as under the limit of the cache. -/
def Sound (cache : ShapeCache) (store : Store) : Prop :=
  ∀ entry ∈ store.contents cache.id,
    Shape.parse entry.source cache.maxDepth = .ok entry.found.shape

namespace Sound

variable {cache : ShapeCache} {store other : Store}

/-- A cache that holds less is sound as well. -/
theorem of_subset (sound : cache.Sound store)
    (h : other.contents cache.id ⊆ store.contents cache.id) : cache.Sound other :=
  fun entry hentry => sound entry (h hentry)

/-- What is taken in is sound, whatever has to go for it. -/
theorem hold_takeIn (sound : cache.Sound store) {source : String} {shape : Shape}
    (parsed : Shape.parse source cache.maxDepth = .ok shape) (stamp : Nat) :
    cache.Sound (other.hold cache.id
      (cache.takeIn source ⟨shape, stamp⟩ (store.contents cache.id))) := by
  intro entry hentry
  rw [Store.contents_hold_self] at hentry
  -- Of retention only this is used: what it keeps was there before or is the new entry.
  have hmem := (cache.retention.keep_sublist cache.capacity _).subset hentry
  rcases List.mem_append.mp hmem with hmem | hmem
  · exact sound entry hmem
  · rw [List.mem_singleton.mp hmem]
    exact parsed

end Sound

/-- A sound cache answers what reading the text answers, up to the stamp. It stays sound, and no
counter moves. -/
theorem Sound.getOrParse {cache : ShapeCache} {store : Store} (sound : cache.Sound store)
    (source : String) :
    ((cache.getOrParse source).answer store).map StampedShape.shape =
        Shape.parse source cache.maxDepth ∧
      cache.Sound ((cache.getOrParse source).after store) ∧
      ((cache.getOrParse source).after store).counters = store.counters := by
  unfold Session.answer Session.after
  rw [run_getOrParse]
  cases hlookup : lookup source (store.contents cache.id) with
  | some found =>
    -- What is found was read from this text.
    have parsed := sound _ (mem_of_lookup hlookup)
    exact ⟨parsed.symm, sound, rfl⟩
  | none =>
    cases parsed : Shape.parse source cache.maxDepth with
    | error error => exact ⟨rfl, sound, rfl⟩
    | ok shape => exact ⟨rfl, sound.hold_takeIn parsed store.readings, rfl⟩

end ShapeCache

namespace Validator

/-- The limit under which the validator reads shape texts. -/
def limit (validator : Validator) : Nat :=
  match validator.cache with
  | some cache => cache.maxDepth
  | none => validator.maxDepth

/-- What the cache of the validator holds is sound, if it has one. -/
def CacheSound (validator : Validator) (store : Store) : Prop :=
  ∀ cache, validator.cache = some cache → cache.Sound store

/-- A cache stays sound when entries go. -/
theorem CacheSound.of_subset {validator : Validator} {store other : Store}
    (sound : validator.CacheSound store)
    (h : ∀ id, other.contents id ⊆ store.contents id) : validator.CacheSound other :=
  fun cache hcache => (sound cache hcache).of_subset (h cache.id)

/-- Soundness is about what the caches hold and about nothing else in a store. -/
theorem CacheSound.of_contents_eq {validator : Validator} {store other : Store}
    (sound : validator.CacheSound store) (h : other.contents = store.contents) :
    validator.CacheSound other :=
  sound.of_subset fun _ => h ▸ List.Subset.refl _

/-- A validator reads a text as the shape that reading it gives, whatever its cache holds and
does. The cache stays sound, and no counter moves. -/
theorem CacheSound.parse {validator : Validator} {store : Store}
    (sound : validator.CacheSound store) (source : String) :
    ((validator.parse source).answer store).map StampedShape.shape =
        Shape.parse source validator.limit ∧
      validator.CacheSound ((validator.parse source).after store) ∧
      ((validator.parse source).after store).counters = store.counters := by
  unfold Validator.parse limit
  cases hcache : validator.cache with
  | some cache =>
    obtain ⟨hanswer, hsound, hcounters⟩ := (sound cache hcache).getOrParse source
    -- A validator has one cache at most, so the one asked about is the one just used.
    refine ⟨hanswer, fun other hother => ?_, hcounters⟩
    rw [hcache] at hother
    cases hother
    exact hsound
  | none =>
    -- Without a cache the text is read every time, and every shape is stamped anew.
    have hrun := Shape.run_read source validator.maxDepth store
    unfold Session.answer Session.after
    simp only
    rw [hrun]
    cases Shape.parse source validator.maxDepth with
    | error error => exact ⟨rfl, sound, rfl⟩
    | ok shape => exact ⟨rfl, sound, rfl⟩

/-- A validation along a text is one along the shape that the text reads as, whatever the cache
holds and does. -/
theorem CacheSound.run_validate {validator : Validator} {store : Store}
    (sound : validator.CacheSound store) (source : String) (document : Json) :
    (validator.validate source document).run store =
      match Shape.parse source validator.limit with
      | .error error => (.error (.shapeText error), (validator.parse source).after store)
      | .ok shape =>
        (validator.validateShape shape document).run ((validator.parse source).after store) := by
  have hanswer := (sound.parse source).1
  -- The shape is used without its stamp, so it does not matter where it comes from.
  unfold validate
  rw [Session.run_bind, ← hanswer]
  cases (validator.parse source).answer store <;> rfl

/-- A validation is the validation along the shape of the text, in the store that reading it
leaves. -/
theorem CacheSound.answer_validate {validator : Validator} {store : Store} {source : String}
    {shape : Shape} (sound : validator.CacheSound store)
    (parsed : Shape.parse source validator.limit = .ok shape) (document : Json) :
    (validator.validate source document).answer store =
      (validator.validateShape shape document).answer ((validator.parse source).after store) := by
  unfold Session.answer
  rw [sound.run_validate, parsed]

/-- A validation along a shape leaves all caches as they are. -/
theorem contents_after_validateShape (validator : Validator) (shape : Shape) (document : Json)
    (store : Store) :
    ((validator.validateShape shape document).after store).contents = store.contents := by
  unfold Session.after validateShape
  rw [StateT.run_bind, run_walk]
  cases (shape.evaluate validator document).run store.walk <;> rfl

/-- A validation along a text leaves sound shapes in the cache. -/
theorem CacheSound.validate {validator : Validator} {store : Store}
    (sound : validator.CacheSound store) (source : String) (document : Json) :
    validator.CacheSound ((validator.validate source document).after store) := by
  have hparse := (sound.parse source).2.1
  unfold Session.after
  rw [sound.run_validate]
  cases Shape.parse source validator.limit with
  | error error => exact hparse
  | ok shape =>
    exact hparse.of_contents_eq (validator.contents_after_validateShape shape document _)

/-- Where there is an outcome, the text was read. -/
theorem CacheSound.exists_parsed {validator : Validator} {store : Store} {source : String}
    {document : Json} {outcome : Outcome} (sound : validator.CacheSound store)
    (h : (validator.validate source document).answer store = .ok outcome) :
    ∃ shape, Shape.parse source validator.limit = .ok shape := by
  cases parsed : Shape.parse source validator.limit with
  | ok shape => exact ⟨shape, rfl⟩
  | error error =>
    unfold Session.answer at h
    rw [sound.run_validate, parsed] at h
    cases h

end Validator

namespace Builder

/-- The cache of the validator that is built next, if the settings ask for one. -/
def cache? (builder : Builder) (id : CacheId) : Option ShapeCache :=
  if builder.config.cache.enabled then
    some { id, capacity := builder.config.cache.maxEntries, maxDepth := builder.config.maxDepth }
  else none

/-- Building changes no counter and no contents. -/
theorem run_build (builder : Builder) (store : Store) :
    builder.build.run store =
      ({ schema := builder.schema
         catalog := builder.catalog
         cache := builder.cache? store.nextCache
         maxDepth := builder.config.maxDepth },
        { store with nextCache :=
          if builder.config.cache.enabled then store.nextCache + 1 else store.nextCache }) := by
  unfold build cache?
  cases builder.config.cache.enabled <;> rfl

/-- A validator reads texts under the limit of its settings, with or without a cache. -/
theorem limit_build (builder : Builder) (store : Store) :
    (builder.build.answer store).limit = builder.config.maxDepth := by
  unfold Session.answer
  rw [run_build]
  unfold Validator.limit cache?
  cases builder.config.cache.enabled <;> rfl

/-- A cache that is new holds nothing. -/
theorem cacheSound_build (builder : Builder) {store : Store}
    (fresh : store.contents store.nextCache = []) :
    (builder.build.answer store).CacheSound (builder.build.after store) := by
  unfold Session.answer Session.after
  rw [run_build]
  intro cache hcache entry hentry
  unfold cache? at hcache
  split at hcache
  · cases hcache
    -- The cache gets the next identity, under which nothing is kept so far.
    have hmem : entry ∈ store.contents store.nextCache := hentry
    rw [fresh] at hmem
    cases hmem
  · cases hcache

end Builder

end DocShape
