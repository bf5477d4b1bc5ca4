import DocShape.Proofs.Session.Reading
import DocShape.Proofs.Validator.Dues
import DocShape.Proofs.Validator.Journals

/-!
# `DocShape.Proofs.Session.Requests`: requests to a validator

A request to a validator changes what is kept in its cache and moves counters of catalogs, and
nothing else that can be seen later. `Validator.parses` says all that the reading of a shape text
can do, and `Validator.serves` all that a request can do: it reads its text, if it has one, and
may then validate a document along a shape. A validation moves the counters of catalogs that the
validator uses, and only on (`Validator.moves_validateShape`).
-/

set_option autoImplicit false

namespace DocShape

/-- What a validator can be asked for. -/
inductive Request where
  /-- To validate a document along the shape of a text. -/
  | validate (source : String) (document : Json)
  /-- To validate a document along a shape. -/
  | validateShape (shape : Shape) (document : Json)
  /-- To validate a record along the shape of a text. -/
  | validateRecord (source : String) (record : Record)
  /-- To read a shape text. -/
  | parse (source : String)
  /-- To forget the shapes in the cache. -/
  | clearCache

/-- The shape text that comes with a request. -/
def Request.source? : Request → Option String
  | validate source _ | validateRecord source _ | parse source => some source
  | validateShape .. | clearCache => none

/-- What comes back from a validator, a catalog or a builder. -/
inductive Response where
  /-- From a validation. -/
  | outcome (result : Except ValidateError Outcome)
  /-- From the reading of a text, with the identity of the shape. -/
  | shape (result : Except SyntaxError StampedShape)
  /-- From a catalog. -/
  | message (message : String)
  /-- A number of shapes. -/
  | number (number : Nat)
  /-- A validator that was built. -/
  | validator (validator : Validator)
  /-- A catalog that was made. -/
  | catalog (catalog : Catalog)
  /-- Nothing but that it was done. -/
  | done

/-- Does what a request asks for. -/
def Validator.serve (validator : Validator) : Request → Session Response
  | .validate source document => do
    return .outcome (← validator.validate source document)
  | .validateShape shape document => do
    return .outcome (← validator.validateShape shape document)
  | .validateRecord source record => do
    return .outcome (← validator.validateRecord source record)
  | .parse source => do
    return .shape (← validator.parse source)
  | .clearCache => do
    validator.clearCache
    return .done

namespace Validator

variable {validator : Validator} {source : String} {store : Store}

/-! ### Reading a text -/

/-- All that the reading of a shape text can answer, and the store it leaves behind. -/
inductive Parses (validator : Validator) (source : String) (store : Store) :
    Except SyntaxError StampedShape → Store → Prop where
  /-- The text is refused. -/
  | refused (error : SyntaxError) : Parses validator source store (.error error) store
  /-- The cache keeps its shape. -/
  | found {cache : ShapeCache} {shape : StampedShape} (hcache : validator.cache = some cache)
    (kept : ShapeCache.lookup source (store.contents cache.id) = some shape) :
    Parses validator source store (.ok shape) (store.write [.event (.cacheHit source)])
  /-- The cache does not keep its shape so far. -/
  | takenIn {cache : ShapeCache} {shape : Shape} (hcache : validator.cache = some cache)
    (new : ShapeCache.lookup source (store.contents cache.id) = none)
    (read : Shape.parse source cache.maxDepth = .ok shape) :
    Parses validator source store (.ok ⟨shape, store.readings⟩)
      ((store.stamped.write [.event (.parsed source shape.depth)]).hold cache.id
        (cache.takeIn source ⟨shape, store.readings⟩ (store.contents cache.id)))
  /-- There is no cache. -/
  | read {shape : Shape} (hcache : validator.cache = none)
    (read : Shape.parse source validator.maxDepth = .ok shape) :
    Parses validator source store (.ok ⟨shape, store.readings⟩) store.stamped

/-- Whatever a cache holds, reading a text does one of the things that are listed. -/
theorem parses (validator : Validator) (source : String) (store : Store) :
    Parses validator source store ((validator.parse source).answer store)
      ((validator.parse source).after store) := by
  unfold Session.answer Session.after Validator.parse
  cases hcache : validator.cache with
  | some cache =>
    -- Found, refused, or read and taken in.
    simp only
    rw [ShapeCache.run_getOrParse]
    cases hlookup : ShapeCache.lookup source (store.contents cache.id) with
    | some found => exact .found hcache hlookup
    | none =>
      cases hread : Shape.parse source cache.maxDepth with
      | error error => exact .refused error
      | ok shape => exact .takenIn hcache hlookup hread
  | none =>
    simp only
    rw [Shape.run_read]
    cases hread : Shape.parse source validator.maxDepth with
    | error error => exact .refused error
    | ok shape => exact .read hcache hread

namespace Parses

variable {answer : Except SyntaxError StampedShape} {now : Store}

/-- No counter moves. -/
theorem counters_eq (parses : Parses validator source store answer now) :
    now.counters = store.counters := by
  cases parses <;> rfl

/-- Reading a text makes no cache. -/
theorem nextCache_eq (parses : Parses validator source store answer now) :
    now.nextCache = store.nextCache := by
  cases parses <;> rfl

/-- Only the cache of the validator may keep other shapes than before. -/
theorem contents_eq (parses : Parses validator source store answer now) {id : CacheId}
    (hid : ∀ cache, validator.cache = some cache → cache.id ≠ id) :
    now.contents id = store.contents id := by
  cases parses with
  -- Only a text that is taken in changes what a cache keeps.
  | takenIn hcache _ _ => exact if_neg (Ne.symm (hid _ hcache))
  | refused => rfl
  | found => rfl
  | read => rfl

/-- A text that is refused changes no cache. -/
theorem contents_eq_of_error {error : SyntaxError}
    (parses : Parses validator source store (.error error) now) :
    now.contents = store.contents := by
  cases parses
  rfl

/-- The cache of the validator takes in the shape of a text if it does not keep it already. -/
theorem takesIn (parses : Parses validator source store answer now) {cache : ShapeCache}
    (hcache : validator.cache = some cache) :
    now.contents cache.id = store.contents cache.id ∨
      ∃ shape, Shape.parse source cache.maxDepth = .ok shape ∧
        ShapeCache.lookup source (store.contents cache.id) = none ∧
        now.contents cache.id =
          cache.takeIn source ⟨shape, store.readings⟩ (store.contents cache.id) := by
  cases parses with
  | refused => exact .inl rfl
  | found => exact .inl rfl
  | read => exact .inl rfl
  | takenIn hother new read =>
    rw [hcache] at hother
    cases hother
    exact .inr ⟨_, read, new, Store.contents_hold_self ..⟩

end Parses

end Validator

/-! ### Counters -/

/-- Counters moved on, and only those of some catalogs. -/
def Counters.Moved (charged : Catalog → Prop) (before after : Counters) : Prop :=
  ∀ counter, before counter ≤ after counter ∧
    (after counter ≠ before counter →
      ∃ catalog, charged catalog ∧ catalog.counter? = some counter)

namespace Counters.Moved

variable {charged : Catalog → Prop} {before middle after : Counters}

/-- Counters that stand still have moved for no catalog. -/
theorem refl (charged : Catalog → Prop) (counters : Counters) : Moved charged counters counters :=
  fun _ => ⟨Nat.le_refl _, fun hne => absurd rfl hne⟩

/-- Two moves in a row are one. -/
theorem trans (first : Moved charged before middle) (second : Moved charged middle after) :
    Moved charged before after := by
  intro counter
  obtain ⟨hfirst, hfirstOnly⟩ := first counter
  obtain ⟨hsecond, hsecondOnly⟩ := second counter
  refine ⟨Nat.le_trans hfirst hsecond, fun hne => ?_⟩
  -- A counter that moved at all moved in the first part or in the second.
  by_cases hmiddle : middle counter = before counter
  · exact hsecondOnly (hmiddle ▸ hne)
  · exact hfirstOnly hmiddle

/-- A message moves the counter of its catalog on. -/
theorem advance {catalog : Catalog} (h : charged catalog) (counters : Counters) :
    Moved charged counters (catalog.advance counters) := by
  intro counter
  -- Any other counter stands still, and a catalog without a counter moves none.
  rw [Catalog.advance_apply]
  split
  · next hcounter => exact ⟨Nat.le_succ _, fun _ => ⟨catalog, h, hcounter⟩⟩
  · exact ⟨Nat.le_refl _, fun hne => absurd rfl hne⟩

end Counters.Moved

namespace Evaluation

variable {α : Type}

/-- The walk at the end of a part, whether it gives a result or an error. -/
def ending (act : Evaluation α) (walk : Walk) : Walk :=
  match act.run walk with
  | .ok _ after => after
  | .error _ after => after

/-- The part moves counters of some catalogs at most, and only on. -/
def Charges (charged : Catalog → Prop) (act : Evaluation α) : Prop :=
  ∀ walk, Counters.Moved charged walk.counters (act.ending walk).counters

/-- Requests charge their catalogs, and nothing else does. -/
theorem compositional_charges (charged : Catalog → Prop) :
    Compositional (fun _ act => Charges charged act) charged where
  write notes hrun walk := by
    unfold ending
    rw [hrun]
    exact .refl charged walk.counters
  require h walk := .advance h walk.counters
  giveUp _ walk := .refl charged walk.counters
  inside {_ act} step h walk := by
    have hmoved := h (walk.enter step)
    unfold ending at hmoved ⊢
    rw [run_inside]
    -- To step in and back moves the path only.
    generalize act.run (walk.enter step) = ended at hmoved ⊢
    cases ended <;> exact hmoved
  bind {_ _ first next} hfirst hnext walk := by
    -- If the first part stops, the second one is not run.
    have hmoved := hfirst walk
    unfold ending at hmoved ⊢
    rw [EStateM.run_bind]
    cases hrun : first.run walk with
    | error error after =>
      rw [hrun] at hmoved
      exact hmoved
    | ok middle between =>
      rw [hrun] at hmoved
      exact hmoved.trans (hnext middle ⟨walk, between, hrun⟩ between)

end Evaluation

namespace Validator

variable {validator : Validator}

/-- The catalog of the validator or of one that is nested in it. -/
def Charges (validator : Validator) (catalog : Catalog) : Prop :=
  ∃ other, validator.Uses other ∧ other.catalog = catalog

/-! ### What requests do -/

/-- A validation along a shape makes no cache, reads no text and changes no cache. -/
theorem moves_validateShape (validator : Validator) (shape : Shape) (document : Json)
    (store : Store) :
    let now := (validator.validateShape shape document).after store
    now.contents = store.contents ∧ now.nextCache = store.nextCache ∧
      Counters.Moved validator.Charges store.counters now.counters := by
  have hcharges := (Evaluation.compositional_charges validator.Charges).evaluate shape
    (fun other uses => ⟨other, uses, rfl⟩) document (Walk.start store.counters)
  intro now
  have hnow : now = ((validator.validateShape shape document).run store).2 := rfl
  rw [hnow, run_validateShape]
  -- The counters are those at the end of the evaluation, be it a result or an error.
  unfold Evaluation.ending at hcharges
  cases hrun : (shape.evaluate validator document).run (Walk.start store.counters) with
  | ok outcome after =>
    rw [hrun] at hcharges
    exact ⟨rfl, rfl, hcharges⟩
  | error error after =>
    rw [hrun] at hcharges
    exact ⟨rfl, rfl, hcharges⟩

/-- All that a request can do, and the store it leaves behind. -/
inductive Serves (validator : Validator) (store : Store) : Request → Store → Prop where
  /-- The text is read, and that is all. -/
  | reads {request : Request} {source : String} (hsource : request.source? = some source) :
    Serves validator store request ((validator.parse source).after store)
  /-- The text is read, and then a document is validated along a shape. -/
  | validates {request : Request} {source : String} (hsource : request.source? = some source)
    {found : StampedShape} (read : (validator.parse source).answer store = .ok found)
    (shape : Shape) (document : Json) :
    Serves validator store request
      ((validator.validateShape shape document).after ((validator.parse source).after store))
  /-- A document is validated along a shape. -/
  | validatesShape (shape : Shape) (document : Json) :
    Serves validator store (.validateShape shape document)
      ((validator.validateShape shape document).after store)
  /-- The cache is emptied. -/
  | clears {cache : ShapeCache} (hcache : validator.cache = some cache) :
    Serves validator store .clearCache (cache.clear.after store)
  /-- There is no cache to be emptied. -/
  | clearsNothing (hcache : validator.cache = none) : Serves validator store .clearCache store

/-- Whatever a validator is asked for, it does one of the things that are listed. -/
theorem serves (validator : Validator) (request : Request) (store : Store) :
    Serves validator store request ((validator.serve request).after store) := by
  cases request with
  | validate source document =>
    show Serves _ _ _ ((validator.validate source document).after store)
    unfold validate Session.after
    rw [Session.run_bind]
    -- A text that is refused ends the request there.
    cases hread : (validator.parse source).answer store with
    | error error => exact .reads rfl
    | ok found => exact .validates rfl hread found.shape document
  | validateRecord source record =>
    show Serves _ _ _ ((validator.validateRecord source record).after store)
    unfold validateRecord Session.after
    rw [Session.run_bind]
    cases hread : (validator.parse source).answer store with
    | error error => exact .reads rfl
    | ok found =>
      -- A record without a document is an error once the text was read.
      cases record.toJson with
      | error error => exact .reads rfl
      | ok document => exact .validates rfl hread found.shape document
  | parse source => exact .reads rfl
  | validateShape shape document => exact .validatesShape shape document
  | clearCache =>
    show Serves _ _ _ (validator.clearCache.after store)
    unfold clearCache
    cases hcache : validator.cache with
    | none => exact .clearsNothing hcache
    | some cache => exact .clears hcache

namespace Serves

variable {request : Request} {store now : Store}

/-- No request makes a cache. -/
theorem nextCache_eq (serves : Serves validator store request now) :
    now.nextCache = store.nextCache := by
  cases serves with
  | reads => exact (validator.parses _ store).nextCache_eq
  | validates _ _ shape document =>
    exact (validator.moves_validateShape shape document _).2.1.trans
      (validator.parses _ store).nextCache_eq
  | validatesShape shape document =>
    exact (validator.moves_validateShape shape document store).2.1
  | clears => rfl
  | clearsNothing => rfl

/-- A request with a text changes caches as the reading of the text does. -/
theorem contents_eq_parse (serves : Serves validator store request now) {source : String}
    (hsource : request.source? = some source) :
    now.contents = ((validator.parse source).after store).contents := by
  cases serves with
  | reads hread =>
    cases hsource.symm.trans hread
    rfl
  | validates hread _ shape document =>
    cases hsource.symm.trans hread
    exact (validator.moves_validateShape shape document _).1
  | validatesShape => cases hsource
  | clears => cases hsource
  | clearsNothing => cases hsource

/-- Only the cache of the validator may keep other shapes than before. -/
theorem contents_eq (serves : Serves validator store request now) {id : CacheId}
    (hid : ∀ cache, validator.cache = some cache → cache.id ≠ id) :
    now.contents id = store.contents id := by
  cases serves with
  | reads => exact (validator.parses _ store).contents_eq hid
  | validates _ _ shape document =>
    rw [(validator.moves_validateShape shape document _).1]
    exact (validator.parses _ store).contents_eq hid
  | validatesShape shape document =>
    rw [(validator.moves_validateShape shape document store).1]
  | clears hcache => exact if_neg (Ne.symm (hid _ hcache))
  | clearsNothing => rfl

/-- A validation along a shape changes no cache. -/
theorem contents_eq_of_validateShape {shape : Shape} {document : Json}
    (serves : Serves validator store (.validateShape shape document) now) :
    now.contents = store.contents := by
  cases serves with
  | reads hsource => cases hsource
  | validates hsource => cases hsource
  | validatesShape => exact (validator.moves_validateShape shape document store).1

/-- A cache that was cleared is empty. -/
theorem contents_eq_nil (serves : Serves validator store .clearCache now) {cache : ShapeCache}
    (hcache : validator.cache = some cache) : now.contents cache.id = [] := by
  cases serves with
  | reads hsource => cases hsource
  | validates hsource => cases hsource
  | clears hother =>
    cases hcache.symm.trans hother
    exact cache.contents_after_clear store
  | clearsNothing hnone => cases hcache.symm.trans hnone

/-- Only counters of catalogs that the validator uses move, and only on. -/
theorem moved (serves : Serves validator store request now) :
    Counters.Moved validator.Charges store.counters now.counters := by
  cases serves with
  | @reads _ source _ =>
    rw [(validator.parses source store).counters_eq]
    exact .refl _ _
  | @validates _ source _ _ _ shape document =>
    -- Reading moved no counter, so the validation starts from those before the request.
    have hmoved := (validator.moves_validateShape shape document
      ((validator.parse source).after store)).2.2
    rwa [(validator.parses source store).counters_eq] at hmoved
  | validatesShape shape document =>
    exact (validator.moves_validateShape shape document store).2.2
  | clears => exact .refl _ _
  | clearsNothing => exact .refl _ _

end Serves

end Validator

end DocShape
