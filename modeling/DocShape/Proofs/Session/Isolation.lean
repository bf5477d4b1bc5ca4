import DocShape.Proofs.Session.Caching
import DocShape.Proofs.Session.Describing
import DocShape.Proofs.Session.Requests

/-!
# `DocShape.Proofs.Session.Isolation`: validators of one session do not touch each other's caches

A session builds validators one after another (`Reached`). A validator is built with the schema
that it will have, so the validators in its schema were built before it. Each has a cache of its
own, if it has one at all (`Separate`). Copies of a validator are the validator itself, and one
validator may stand in many schemas.

`Reached.isolated`: whatever a validator is asked for, all caches but its own stay as they are,
those of the validators nested in it included. Its own cache changes by the shape of the text that
came with the request, as if that text had only been read, or is emptied. Counters move on for its
own catalog and those of nested validators, and for no other.
-/

set_option autoImplicit false

namespace DocShape

/-- What a session can come to: the validators that were built, the newest first, and the
store. -/
inductive Reached : List Validator → Store → Prop where
  | start : Reached [] {}
  /-- A validator is built. It may make room in its cache in any way. -/
  | build {validators : List Validator} {store : Store} (reached : Reached validators store)
    (builder : Builder) (retention : Retention)
    (embeds : ∀ name inner, OrderedMap.get? builder.schema name = some (.nested inner) →
      inner ∈ validators) :
    Reached ((builder.build.answer store).retaining retention :: validators)
      (builder.build.after store)
  /-- A validator, or a copy of it, is asked for something. -/
  | serve {validators : List Validator} {store : Store} (reached : Reached validators store)
    {validator : Validator} (built : validator ∈ validators) (request : Request) :
    Reached validators ((validator.serve request).after store)
  /-- A catalog is made. -/
  | newCatalog {validators : List Validator} {store : Store} (reached : Reached validators store)
    (messages : Nat → String) : Reached validators ((Catalog.fresh messages).after store)
  /-- A catalog is asked for a message. -/
  | required {validators : List Validator} {store : Store} (reached : Reached validators store)
    (catalog : Catalog) : Reached validators (catalog.required.after store)
  /-- A validator is described. -/
  | describe {validators : List Validator} {store : Store} (reached : Reached validators store)
    {validator : Validator} (built : validator ∈ validators) :
    Reached validators (validator.describe.after store)
  /-- Caches drop entries. -/
  | evict {validators : List Validator} {store : Store} (reached : Reached validators store)
    (eviction : Eviction) : Reached validators ((Session.evict eviction).after store)

/-- The caches of validators that were built are apart, and no cache that will be made is one of
them. The validators in a schema were built before the one that has it. -/
structure Separate (validators : List Validator) (store : Store) : Prop where
  below : ∀ validator ∈ validators, ∀ cache, validator.cache = some cache →
    cache.id < store.nextCache
  apart : validators.Pairwise fun validator other => ∀ cache otherCache,
    validator.cache = some cache → other.cache = some otherCache → cache.id ≠ otherCache.id
  embeds : ∀ newer validator older, validators = newer ++ validator :: older →
    ∀ name inner, OrderedMap.get? validator.schema name = some (.nested inner) → inner ∈ older

namespace Separate

variable {validators : List Validator} {store now : Store}

/-- Where no cache was made, nothing changes. -/
theorem of_nextCache_eq (separate : Separate validators store)
    (h : now.nextCache = store.nextCache) : Separate validators now where
  below validator built cache hcache := h ▸ separate.below validator built cache hcache
  apart := separate.apart
  embeds := separate.embeds

/-- A new validator has a cache of its own. -/
theorem build (separate : Separate validators store) {builder : Builder} (retention : Retention)
    (embeds : ∀ name inner, OrderedMap.get? builder.schema name = some (.nested inner) →
      inner ∈ validators) :
    Separate ((builder.build.answer store).retaining retention :: validators)
      (builder.build.after store) := by
  -- A new cache has the next identity, which is above those of all others.
  have hcache (cache : ShapeCache)
      (h : ((builder.build.answer store).retaining retention).cache = some cache) :
      cache.id = store.nextCache ∧
        (builder.build.after store).nextCache = store.nextCache + 1 := by
    unfold Session.answer at h
    unfold Session.after
    rw [Builder.run_build] at h ⊢
    obtain ⟨fresh, hfresh, rfl⟩ := Option.map_eq_some_iff.mp h
    unfold Builder.cache? at hfresh
    split at hfresh
    · next henabled =>
      cases hfresh
      exact ⟨rfl, if_pos henabled⟩
    · cases hfresh
  -- So the identities that were given before stay below the next one.
  have hnext : store.nextCache ≤ (builder.build.after store).nextCache := by
    unfold Session.after
    rw [Builder.run_build]
    show store.nextCache ≤ if builder.config.cache.enabled then _ else _
    split
    · exact Nat.le_succ _
    · exact Nat.le_refl _
  refine ⟨fun validator built cache h => ?_, ?_, fun newer validator older hsplit => ?_⟩
  · rcases List.mem_cons.mp built with rfl | built
    · obtain ⟨hid, hlater⟩ := hcache cache h
      rw [hid, hlater]
      exact Nat.lt_succ_self _
    · exact Nat.lt_of_lt_of_le (separate.below validator built cache h) hnext
  · -- The others have smaller identities, so the new cache is none of theirs.
    refine List.pairwise_cons.mpr
      ⟨fun other built cache otherCache h hother => ?_, separate.apart⟩
    have hbelow := separate.below other built otherCache hother
    rw [(hcache cache h).1]
    exact (Nat.ne_of_lt hbelow).symm
  · -- What is nested in the new validator was built, and the older ones keep their places.
    cases newer with
    | nil =>
      cases hsplit
      intro name inner entry
      unfold Session.answer at entry
      rw [Builder.run_build] at entry
      exact embeds name inner entry
    | cons newest rest => exact separate.embeds rest validator older (List.cons.inj hsplit).2

end Separate

namespace Reached

variable {validators : List Validator} {store : Store}

/-- The caches of all validators that were built are apart. -/
theorem separate (reached : Reached validators store) : Separate validators store := by
  induction reached with
  | start => exact ⟨nofun, .nil, fun newer _ _ hsplit => by cases newer <;> cases hsplit⟩
  | build _ builder retention embeds ih => exact ih.build retention embeds
  | @serve _ store _ validator _ request ih =>
    exact ih.of_nextCache_eq (validator.serves request store).nextCache_eq
  | newCatalog _ _ ih => exact ih.of_nextCache_eq rfl
  | required _ _ ih => exact ih.of_nextCache_eq rfl
  | describe _ _ ih =>
    refine ih.of_nextCache_eq ?_
    rw [Validator.after_describe]
    exact (Store.asked_eq _ _).2.2.2
  | evict _ _ ih => exact ih.of_nextCache_eq rfl

end Reached

/-- A cache is as it was. -/
def Validator.CacheKept (validator : Validator) (store now : Store) : Prop :=
  ∀ cache, validator.cache = some cache → now.contents cache.id = store.contents cache.id

/-- What a request to a validator does to a session in which the others were built. -/
structure Validator.Isolated (validator : Validator) (others : List Validator) (request : Request)
    (store now : Store) : Prop where
  /-- The caches of all other validators are as they were. -/
  others : ∀ other ∈ others, other.CacheKept store now
  /-- So are those of the validators nested in this one, at any depth. -/
  nested : ∀ name inner, OrderedMap.get? validator.schema name = some (.nested inner) →
    ∀ other, inner.Uses other → other.CacheKept store now
  /-- A validation along a shape changes no cache at all. -/
  validateShape : ∀ shape document, request = .validateShape shape document →
    now.contents = store.contents
  /-- A request with a text changes caches as the reading of the text does, whatever comes of a
  validation. If the text is refused, it changes none. -/
  parse : ∀ source, request.source? = some source →
    now.contents = ((validator.parse source).after store).contents ∧
      ∀ error, (validator.parse source).answer store = .error error →
        now.contents = store.contents
  /-- The cache of the validator stays as it was, or it takes in the shape of the text. -/
  takesIn : ∀ source, request.source? = some source → ∀ cache, validator.cache = some cache →
    now.contents cache.id = store.contents cache.id ∨
      ∃ shape, Shape.parse source cache.maxDepth = .ok shape ∧
        ShapeCache.lookup source (store.contents cache.id) = none ∧
        now.contents cache.id =
          cache.takeIn source ⟨shape, store.readings⟩ (store.contents cache.id)
  /-- To clear the cache is to empty it. -/
  clear : request = .clearCache → ∀ cache, validator.cache = some cache →
    now.contents cache.id = []
  /-- Counters move on for catalogs of the validator and of nested ones, and for no others. -/
  counters : Counters.Moved validator.Charges store.counters now.counters

/-- All that is nested in a validator, at any depth, was built before it. -/
theorem Separate.mem_of_uses {validators older : List Validator} {store : Store}
    (separate : Separate validators store) {inner other : Validator} (uses : inner.Uses other)
    {newer : List Validator} (hsplit : validators = newer ++ older) (built : inner ∈ older) :
    other ∈ older := by
  induction uses generalizing newer older with
  | itself => exact built
  | @nested validator next other name entry rest ih =>
    -- One level in, what is nested was built before the validator that names it.
    obtain ⟨between, oldest, rfl⟩ := List.append_of_mem built
    rw [← List.append_assoc] at hsplit
    have hnext := separate.embeds _ validator oldest hsplit name next entry
    have holdest : validators = (newer ++ between ++ [validator]) ++ oldest := by
      rw [hsplit]
      simp
    exact List.mem_append_right _ (List.mem_cons_of_mem _ (ih holdest hnext))

namespace Reached

variable {newer older : List Validator} {validator : Validator} {store : Store}

/-- Whatever a validator of a session is asked for, and whether it succeeds or fails, it leaves
the caches of all other validators alone, and the counters of catalogs that it does not use. -/
theorem isolated (reached : Reached (newer ++ validator :: older) store) (request : Request) :
    validator.Isolated (newer ++ older) request store
      ((validator.serve request).after store) := by
  have separate := reached.separate
  have serves := validator.serves request store
  have parses (source : String) := validator.parses source store
  have hothers : ∀ other ∈ newer ++ older,
      other.CacheKept store ((validator.serve request).after store) := by
    intro other hother otherCache hotherCache
    refine serves.contents_eq fun cache hcache => ?_
    -- No two validators of the session have one cache, whichever of them was built first.
    obtain ⟨-, hlater, hnewer⟩ := List.pairwise_append.mp separate.apart
    rcases List.mem_append.mp hother with hother | hother
    · exact (hnewer other hother validator List.mem_cons_self _ _ hotherCache hcache).symm
    · exact (List.pairwise_cons.mp hlater).1 other hother _ _ hcache hotherCache
  refine ⟨hothers, fun name inner entry other uses => ?_, fun shape document hrequest => ?_,
    fun source hsource => ⟨serves.contents_eq_parse hsource, fun error hanswer => ?_⟩,
    fun source hsource cache hcache => ?_, fun hrequest cache hcache => ?_, serves.moved⟩
  · -- Nested validators are among the older ones, so they are some of the others.
    have hinner := separate.embeds newer validator older rfl name inner entry
    have hsplit : newer ++ validator :: older = (newer ++ [validator]) ++ older := by simp
    exact hothers other (List.mem_append_right _ (separate.mem_of_uses uses hsplit hinner))
  · subst hrequest
    exact serves.contents_eq_of_validateShape
  · rw [serves.contents_eq_parse hsource]
    exact (hanswer ▸ parses source).contents_eq_of_error
  · rw [serves.contents_eq_parse hsource]
    exact (parses source).takesIn hcache
  · subst hrequest
    exact serves.contents_eq_nil hcache

/-- Two validators with the same nested validator and with a catalog of its own. The older one
validates a document in which the nested validator misses a name: its cache takes the shape in,
the other two stay empty, and the counter moves on. -/
theorem isolated_of_shared_pets :
    let pets : Builder := { catalog := .numbered (Catalog.counting "missing ") 0 }
    let inner : Validator := (pets.build.answer {}).retaining .oldest
    let parent : Builder := { schema := .ofList [("pets", .nested inner)] }
    let first : Store := pets.build.after {}
    let older : Validator := (parent.build.answer first).retaining .oldest
    let second : Store := parent.build.after first
    let newer : Validator := (parent.build.answer second).retaining .oldest
    let store : Store := parent.build.after second
    let request : Request := .validate "{pets{name}}" (.object [("pets", .object [])])
    let now : Store := (older.serve request).after store
    Reached ([newer] ++ older :: [inner]) store ∧
      older.Isolated ([newer] ++ [inner]) request store now ∧
      (now.contents 0).length = 0 ∧ (now.contents 1).length = 1 ∧ (now.contents 2).length = 0 ∧
      store.counters 0 = 0 ∧ now.counters 0 = 1 := by
  intro pets inner parent first older second newer store request now
  have embeds (validators : List Validator) (built : inner ∈ validators) :
      ∀ name other, OrderedMap.get? parent.schema name = some (.nested other) →
        other ∈ validators := by
    intro name other entry
    have hentry : (if "pets" = name then some (Entry.nested inner) else none) =
      some (.nested other) := entry
    split at hentry
    · cases hentry
      exact built
    · cases hentry
  have hinner : Reached [inner] first := .build .start pets .oldest nofun
  have holder : Reached [older, inner] second :=
    .build hinner parent .oldest (embeds _ (by simp))
  have hnewer : Reached ([newer] ++ older :: [inner]) store :=
    .build holder parent .oldest (embeds _ (by simp))
  exact ⟨hnewer, hnewer.isolated request, by decide +kernel, by decide +kernel, by decide +kernel,
    by decide +kernel, by decide +kernel⟩

end Reached

end DocShape
