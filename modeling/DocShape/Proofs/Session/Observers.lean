import DocShape.Proofs.Session.Caching
import DocShape.Proofs.Session.Describing
import DocShape.Proofs.Session.Requests

/-!
# `DocShape.Proofs.Session.Observers`: when looking changes an answer

To look at a validator, a builder, a schema or a catalog is to describe it, and a description asks
the catalogs that it shows for their next messages (`Observation.after_look`). All other looks
change nothing. So a look moves the counters of numbered catalogs on, and can be told from later
answers that use the same counters.

It can be told from no others. A `Script` is what somebody does in a session, where the next act
may depend on all responses so far. `Script.responses_eq_unobserved`: with and without the looks
in between, the responses are the same, if no act asks a counter for a message that was shown in a
look before (`Script.Apart`).

The invariant is `Store.Alike`: two stores differ at most in the counters that were shown and in
their journals. An act keeps it (`Act.overlooks`), and so does a look on one side.
-/

set_option autoImplicit false

namespace DocShape

/-! ### Looks -/

/-- A look at something. -/
inductive Observation where
  /-- The description of a validator. -/
  | describeValidator (validator : Validator)
  /-- The description of a builder. -/
  | describeBuilder (builder : Builder)
  /-- The description of a schema. -/
  | describeSchema (schema : Schema)
  /-- The description of a catalog. -/
  | describeCatalog (catalog : Catalog)
  /-- The description of a rule. -/
  | describeRule (rule : Rule)
  /-- The description of a cache. -/
  | describeCache (cache : ShapeCache)
  /-- The number of shapes in the cache of a validator. -/
  | cacheLength (validator : Validator)
  /-- The names in a schema. -/
  | fields (schema : Schema)
  /-- The entry of a name. -/
  | entry (schema : Schema) (field : String)
  /-- The number of names in a schema. -/
  | size (schema : Schema)
  /-- What a name resolves to. -/
  | resolve (schema : Schema) (field : String)

/-- What is seen in a look. -/
inductive Sight where
  | description (description : Description)
  | number (number : Nat)
  | names (names : List String)
  | entry (entry : Option Entry)
  | resolution (resolution : Resolution)

namespace Observation

/-- Takes the look. -/
def look : Observation → Session Sight
  | .describeValidator validator => return .description (← validator.describe)
  | .describeBuilder builder => return .description (← builder.describe)
  | .describeSchema schema => return .description (← Schema.describe schema)
  | .describeCatalog catalog => return .description (← catalog.describe)
  | .describeRule rule => return .description rule.describe
  | .describeCache cache => return .description cache.describe
  | .cacheLength validator => return .number (← validator.cacheLength)
  | .fields schema => return .names (OrderedMap.keys schema)
  | .entry schema field => return .entry (OrderedMap.get? schema field)
  | .size schema => return .number (OrderedMap.size schema)
  | .resolve schema field => return .resolution (Schema.resolve schema field)

/-- The catalogs that are shown in the look. -/
def shown : Observation → List Catalog
  | .describeValidator validator => validator.shown
  | .describeBuilder builder => builder.shown
  | .describeSchema schema => Entry.allShown (OrderedMap.entries schema)
  | .describeCatalog catalog => [catalog]
  | .describeRule _ | .describeCache _ => []
  | .cacheLength _ | .fields _ | .entry .. | .size _ | .resolve .. => []

/-- Whether the look shows a catalog that uses a counter. -/
def Shows (observation : Observation) (counter : CounterId) : Prop :=
  ∃ catalog ∈ observation.shown, catalog.counter? = some counter

/-- A look asks the catalogs that it shows, each one once, and does nothing else. -/
theorem after_look (observation : Observation) (store : Store) :
    observation.look.after store = store.asked observation.shown := by
  -- Only the descriptions of validators, builders and schemas go down into other validators.
  cases observation with
  | describeValidator validator => exact validator.after_describe store
  | describeBuilder builder => exact builder.after_describe store
  | describeSchema schema => exact Schema.after_describe schema store
  | cacheLength validator =>
    show validator.cacheLength.after store = store
    unfold Validator.cacheLength
    cases validator.cache <;> rfl
  | describeCatalog catalog => rfl
  | describeRule rule => rfl
  | describeCache cache => rfl
  | fields schema => rfl
  | entry schema field => rfl
  | size schema => rfl
  | resolve schema field => rfl

end Observation

/-! ### Stores that differ in what was shown -/

/-- Counters agree but for those that were shown. -/
def Counters.AgreeOff (shown : CounterId → Prop) (counters others : Counters) : Prop :=
  ∀ counter, ¬shown counter → counters counter = others counter

namespace Counters.AgreeOff

variable {shown : CounterId → Prop} {counters others : Counters}

/-- A catalog whose counter was not shown gives the same message. -/
theorem message_eq (agree : counters.AgreeOff shown others) {catalog : Catalog}
    (hidden : ∀ counter, catalog.counter? = some counter → ¬shown counter) :
    catalog.message counters = catalog.message others := by
  cases catalog with
  | fixed message => rfl
  | numbered messages counter => exact congrArg messages (agree counter (hidden counter rfl))

/-- It moves the same counter on. -/
theorem advance (agree : counters.AgreeOff shown others) (catalog : Catalog) :
    Counters.AgreeOff shown (catalog.advance counters) (catalog.advance others) := by
  intro counter hcounter
  rw [Catalog.advance_apply, Catalog.advance_apply, agree counter hcounter]

end Counters.AgreeOff

/-- Two walks at the same place whose counters agree but for those that were shown. -/
structure Walk.Alike (shown : CounterId → Prop) (walk other : Walk) : Prop where
  path : walk.path = other.path
  counters : Counters.AgreeOff shown walk.counters other.counters

/-- Two stores that differ in their journals and in the counters that were shown, at most. -/
structure Store.Alike (shown : CounterId → Prop) (store other : Store) : Prop where
  counters : Counters.AgreeOff shown store.counters other.counters
  contents : store.contents = other.contents
  readings : store.readings = other.readings
  nextCounter : store.nextCounter = other.nextCounter
  nextCache : store.nextCache = other.nextCache

namespace Store.Alike

variable {shown : CounterId → Prop} {store other : Store}

/-- A store differs from itself in nothing. -/
theorem refl (shown : CounterId → Prop) (store : Store) : store.Alike shown store :=
  ⟨fun _ _ => rfl, rfl, rfl, rfl, rfl⟩

/-- A look on one side leaves stores alike, but for the counters that it shows. -/
theorem asked (alike : store.Alike shown other) (catalogs : List Catalog) :
    (store.asked catalogs).Alike
      (fun counter => shown counter ∨ ∃ catalog ∈ catalogs, catalog.counter? = some counter)
      other := by
  obtain ⟨hcontents, hreadings, hnextCounter, hnextCache⟩ := store.asked_eq catalogs
  refine ⟨fun counter hcounter => ?_, hcontents.trans alike.contents,
    hreadings.trans alike.readings, hnextCounter.trans alike.nextCounter,
    hnextCache.trans alike.nextCache⟩
  rw [not_or] at hcounter
  rw [← alike.counters counter hcounter.1]
  -- None of the catalogs moves this counter.
  have hcatalogs := hcounter.2
  clear alike hcounter hcontents hreadings hnextCounter hnextCache
  induction catalogs generalizing store with
  | nil => rfl
  | cons catalog rest ih =>
    have hrest : ((catalog.required.after store).asked rest).counters counter =
        (catalog.required.after store).counters counter :=
      ih fun ⟨found, hmem, hfound⟩ => hcatalogs ⟨found, List.mem_cons_of_mem _ hmem, hfound⟩
    have hcatalog : catalog.counter? ≠ some counter := fun h =>
      hcatalogs ⟨catalog, List.mem_cons_self, h⟩
    have hadvance : (catalog.required.after store).counters counter = store.counters counter := by
      show catalog.advance store.counters counter = _
      rw [Catalog.advance_apply, if_neg hcatalog]
    exact hrest.trans hadvance

end Store.Alike

/-! ### Evaluations -/

namespace Evaluation

variable {α : Type} {shown : CounterId → Prop}

/-- Two ends with the same result or the same error. -/
inductive EndAlike (shown : CounterId → Prop) :
    EStateM.Result ValidateError Walk α → EStateM.Result ValidateError Walk α → Prop where
  | ok {after other : Walk} (result : α) (alike : after.Alike shown other) :
    EndAlike shown (.ok result after) (.ok result other)
  | error {after other : Walk} (error : ValidateError) (alike : after.Alike shown other) :
    EndAlike shown (.error error after) (.error error other)

/-- The part does the same, whatever the counters that were shown are. -/
def Overlooks (shown : CounterId → Prop) (act : Evaluation α) : Prop :=
  ∀ walk other : Walk, walk.Alike shown other → EndAlike shown (act.run walk) (act.run other)

/-- Parts that ask no counter that was shown overlook them. -/
theorem compositional_overlooks (shown : CounterId → Prop) :
    Compositional (fun _ act => Overlooks shown act)
      (fun catalog => ∀ counter, catalog.counter? = some counter → ¬shown counter) where
  write notes hrun walk other alike := by
    rw [hrun, hrun]
    exact .ok _ ⟨alike.path, alike.counters⟩
  require {catalog} hidden walk other alike := by
    rw [run_require, run_require, alike.counters.message_eq hidden]
    exact .ok _ ⟨alike.path, alike.counters.advance catalog⟩
  giveUp length walk other alike := by
    show EndAlike shown (.error (.shapeNotSpecified walk.path.text length) _)
      (.error (.shapeNotSpecified other.path.text length) _)
    rw [alike.path]
    exact .error _ ⟨alike.path, alike.counters⟩
  inside {_ act} step h walk other alike := by
    -- Both walks take the step, and both come back from it or stop.
    have hact := h (walk.enter step) (other.enter step)
      ⟨congrArg (· ++ [step]) alike.path, alike.counters⟩
    rw [run_inside, run_inside]
    generalize act.run (walk.enter step) = ended at hact ⊢
    generalize act.run (other.enter step) = otherEnded at hact ⊢
    cases hact with
    | ok result alike => exact .ok result ⟨congrArg List.dropLast alike.path, alike.counters⟩
    | error error alike => exact .error error alike
  bind {_ _ first next} hfirst hnext walk other alike := by
    have hends := hfirst walk other alike
    rw [EStateM.run_bind, EStateM.run_bind]
    generalize hrun : first.run walk = ended at hends ⊢
    generalize first.run other = otherEnded at hends ⊢
    cases hends with
    | @ok after _ result alike => exact hnext result ⟨walk, after, hrun⟩ _ _ alike
    | error error alike => exact .error error alike

end Evaluation

/-! ### Acts -/

/-- Something that is done in a session, with a response that counts. -/
inductive Act where
  /-- A validator, or a copy of it, is asked for something. -/
  | serve (validator : Validator) (request : Request)
  /-- A validator is asked for the number of shapes in its cache. -/
  | cacheLength (validator : Validator)
  /-- A catalog is asked for a message. -/
  | required (catalog : Catalog)
  /-- A validator is built. -/
  | build (builder : Builder)
  /-- A catalog of numbered messages is made. -/
  | newCatalog (messages : Nat → String)
  /-- Caches drop entries. -/
  | evict (eviction : Eviction)

namespace Act

/-- Does it. -/
def run : Act → Session Response
  | .serve validator request => validator.serve request
  | .cacheLength validator => return .number (← validator.cacheLength)
  | .required catalog => return .message (← catalog.required)
  | .build builder => return .validator (← builder.build)
  | .newCatalog messages => return .catalog (← Catalog.fresh messages)
  | .evict eviction => do
    Session.evict eviction
    return .done

/-- The catalogs that may be asked for a message. To read a text or to empty a cache asks none. -/
def Charges : Act → Catalog → Prop
  | .serve _ (.parse _), _ | .serve _ .clearCache, _ => False
  | .serve validator _, catalog => validator.Charges catalog
  | .required asked, catalog => asked = catalog
  | .cacheLength _, _ | .build _, _ | .newCatalog _, _ | .evict _, _ => False

/-- Whether a catalog with this counter may be asked for a message. -/
def Uses (act : Act) (counter : CounterId) : Prop :=
  ∃ catalog, act.Charges catalog ∧ catalog.counter? = some counter

end Act

namespace Session

variable {α β : Type} {shown : CounterId → Prop}

/-- The part of a session answers the same on stores that are alike, and leaves them alike. -/
def Overlooks (shown : CounterId → Prop) (act : Session α) : Prop :=
  ∀ store other : Store, store.Alike shown other →
    act.answer store = act.answer other ∧ (act.after store).Alike shown (act.after other)

namespace Overlooks

/-- To return a value looks at no store. -/
theorem pure (value : α) : Overlooks shown (Pure.pure value) :=
  fun _ _ alike => ⟨rfl, alike⟩

/-- An act in two parts overlooks what both parts overlook: the first one gives the same answer on
both stores, so both go on alike. -/
theorem bind {first : Session α} {next : α → Session β} (hfirst : first.Overlooks shown)
    (hnext : ∀ middle, (next middle).Overlooks shown) : (first >>= next).Overlooks shown := by
  intro store other alike
  obtain ⟨hanswer, hafter⟩ := hfirst store other alike
  show (next (first.answer store)).answer (first.after store) =
      (next (first.answer other)).answer (first.after other) ∧
    ((next (first.answer store)).after (first.after store)).Alike shown
      ((next (first.answer other)).after (first.after other))
  rw [← hanswer]
  exact hnext (first.answer store) (first.after store) (first.after other) hafter

/-- What is made of an answer overlooks what the act overlooks. -/
theorem map {act : Session α} (h : act.Overlooks shown) (respond : α → β) :
    Overlooks shown (act >>= fun result => Pure.pure (respond result)) :=
  h.bind fun middle => pure (respond middle)

end Overlooks

end Session

namespace Validator

variable {shown : CounterId → Prop} {validator : Validator}

open Session

/-- A validation along a shape overlooks counters that none of its catalogs uses. -/
theorem overlooks_validateShape
    (hidden : ∀ catalog counter, validator.Charges catalog → catalog.counter? = some counter →
      ¬shown counter) (shape : Shape) (document : Json) :
    (validator.validateShape shape document).Overlooks shown := by
  intro store other alike
  have hevaluate := (Evaluation.compositional_overlooks shown).evaluate shape
    (fun used uses counter => hidden used.catalog counter ⟨used, uses, rfl⟩) document
    (Walk.start store.counters) (Walk.start other.counters) ⟨rfl, alike.counters⟩
  unfold Session.answer Session.after
  rw [run_validateShape, run_validateShape]
  -- Both evaluations end alike, with counters that agree where they are shown.
  generalize (shape.evaluate validator document).run (Walk.start store.counters) = ended
    at hevaluate ⊢
  generalize (shape.evaluate validator document).run (Walk.start other.counters) = otherEnded
    at hevaluate ⊢
  cases hevaluate with
  | ok outcome ends =>
    exact ⟨rfl, ends.counters, alike.contents, alike.readings, alike.nextCounter, alike.nextCache⟩
  | error error ends =>
    exact ⟨rfl, ends.counters, alike.contents, alike.readings, alike.nextCounter, alike.nextCache⟩

/-- The reading of a text overlooks all counters. -/
theorem overlooks_parse (validator : Validator) (source : String) :
    (validator.parse source).Overlooks shown := by
  intro store other alike
  unfold Session.answer Session.after Validator.parse
  cases validator.cache with
  | none =>
    simp only
    rw [Shape.run_read, Shape.run_read]
    cases Shape.parse source validator.maxDepth with
    | error error => exact ⟨rfl, alike⟩
    | ok shape =>
      simp only [alike.readings]
      exact ⟨trivial, alike.counters, alike.contents, congrArg (· + 1) alike.readings,
        alike.nextCounter, alike.nextCache⟩
  | some cache =>
    simp only
    rw [ShapeCache.run_getOrParse, ShapeCache.run_getOrParse, alike.contents]
    cases ShapeCache.lookup source (other.contents cache.id) with
    | some found =>
      exact ⟨rfl, alike.counters, alike.contents, alike.readings, alike.nextCounter,
        alike.nextCache⟩
    | none =>
      cases Shape.parse source cache.maxDepth with
      | error error => exact ⟨rfl, alike⟩
      | ok shape =>
        -- The stamp of a new shape is the number of readings so far, the same on both sides.
        simp only [alike.readings]
        refine ⟨trivial, alike.counters, ?_, congrArg (· + 1) alike.readings, alike.nextCounter,
          alike.nextCache⟩
        show (fun id => if id = cache.id then _ else store.contents id) = fun id =>
          if id = cache.id then _ else other.contents id
        rw [alike.contents]

/-- A request overlooks counters that none of the catalogs it may ask uses. -/
theorem overlooks_serve (validator : Validator) (request : Request)
    (hidden : ∀ counter, (Act.serve validator request).Uses counter → ¬shown counter) :
    (validator.serve request).Overlooks shown := by
  -- All that may ask a counter is the validation. Reading and clearing ask none.
  have hvalidate (charges : ∀ catalog, validator.Charges catalog →
      (Act.serve validator request).Charges catalog) :=
    validator.overlooks_validateShape fun catalog counter hcatalog hcounter =>
      hidden counter ⟨catalog, charges catalog hcatalog, hcounter⟩
  cases request with
  | validate source document =>
    refine Overlooks.map ((validator.overlooks_parse source).bind fun parsed => ?_)
      Response.outcome
    cases parsed with
    | error error => exact .pure _
    | ok found => exact hvalidate (fun _ => id) found.shape document
  | validateShape shape document =>
    exact (hvalidate (fun _ => id) shape document).map Response.outcome
  | validateRecord source record =>
    refine Overlooks.map ((validator.overlooks_parse source).bind fun parsed => ?_)
      Response.outcome
    cases parsed with
    | error error => exact .pure _
    | ok found =>
      simp only
      cases record.toJson with
      | error error => exact .pure _
      | ok document => exact hvalidate (fun _ => id) found.shape document
  | parse source => exact (validator.overlooks_parse source).map Response.shape
  | clearCache =>
    intro store other alike
    refine ⟨rfl, ?_⟩
    show (validator.clearCache.after store).Alike shown (validator.clearCache.after other)
    unfold clearCache
    cases validator.cache with
    | none => exact alike
    | some cache =>
      refine ⟨alike.counters, ?_, alike.readings, alike.nextCounter, alike.nextCache⟩
      show (fun id => if id = cache.id then [] else store.contents id) = fun id =>
        if id = cache.id then [] else other.contents id
      rw [alike.contents]

end Validator

namespace Act

variable {shown : CounterId → Prop}

open Session

/-- An act overlooks counters that it does not use. -/
theorem overlooks (act : Act) (hidden : ∀ counter, act.Uses counter → ¬shown counter) :
    act.run.Overlooks shown := by
  cases act with
  | serve validator request => exact validator.overlooks_serve request hidden
  | cacheLength validator =>
    refine Overlooks.map (fun store other alike => ?_) Response.number
    unfold Validator.cacheLength
    cases validator.cache with
    | none => exact ⟨rfl, alike⟩
    | some cache =>
      exact ⟨congrArg (fun contents => (contents cache.id).length) alike.contents, alike⟩
  | required catalog =>
    -- The catalog that is asked uses its counter, so that one was not shown.
    refine Overlooks.map (fun store other alike => ⟨?_, ?_⟩) Response.message
    · exact alike.counters.message_eq fun counter hcounter =>
        hidden counter ⟨catalog, rfl, hcounter⟩
    · exact ⟨alike.counters.advance catalog, alike.contents, alike.readings, alike.nextCounter,
        alike.nextCache⟩
  | build builder =>
    refine Overlooks.map (fun store other alike => ?_) Response.validator
    unfold Session.answer Session.after
    rw [Builder.run_build, Builder.run_build, alike.nextCache]
    exact ⟨rfl, alike.counters, alike.contents, alike.readings, alike.nextCounter, rfl⟩
  | newCatalog messages =>
    refine Overlooks.map (fun store other alike => ⟨?_, ?_⟩) Response.catalog
    · exact congrArg (Catalog.numbered messages) alike.nextCounter
    · exact ⟨alike.counters, alike.contents, alike.readings, congrArg (· + 1) alike.nextCounter,
        alike.nextCache⟩
  | evict eviction =>
    refine fun store other alike => ⟨rfl, alike.counters, ?_, alike.readings, alike.nextCounter,
      alike.nextCache⟩
    show (fun id => eviction.keep id (store.contents id)) = fun id =>
      eviction.keep id (other.contents id)
    rw [alike.contents]

end Act

/-! ### Scripts -/

/-- What somebody does in a session. The next step may depend on the response to an act, but not
on what is seen in a look. -/
inductive Script where
  | finish
  | act (act : Act) (next : Response → Script)
  | look (observation : Observation) (next : Script)

namespace Script

/-- Follows the script and gives the responses to its acts, in order. -/
def responses : Script → Session (List Response)
  | .finish => return []
  | .act step next => do
    let response ← step.run
    let rest ← (next response).responses
    return response :: rest
  | .look observation next => do
    let _ ← observation.look
    next.responses

/-- The script without its looks. -/
def unobserved : Script → Script
  | .finish => .finish
  | .act step next => .act step fun response => (next response).unobserved
  | .look _ next => next.unobserved

/-- No act of the script uses a counter that was shown before: one of the given counters, or one
that an earlier look of the script shows. -/
def Apart (shown : CounterId → Prop) : Script → Store → Prop
  | .finish, _ => True
  | .act step next, store => (∀ counter, step.Uses counter → ¬shown counter) ∧
      (next (step.run.answer store)).Apart shown (step.run.after store)
  | .look observation next, store =>
      next.Apart (fun counter => shown counter ∨ observation.Shows counter)
        (observation.look.after store)

/-- On stores that are alike the responses are the same, with looks and without them. -/
theorem answer_unobserved (script : Script) {shown : CounterId → Prop} {store other : Store}
    (alike : store.Alike shown other) (apart : script.Apart shown store) :
    script.responses.answer store = script.unobserved.responses.answer other := by
  induction script generalizing shown store other with
  | finish => rfl
  | act step next ih =>
    obtain ⟨hanswer, hafter⟩ := step.overlooks apart.1 store other alike
    -- The same response leads to the same rest of the script.
    have hrest := ih (step.run.answer store) hafter apart.2
    show step.run.answer store ::
        (next (step.run.answer store)).responses.answer (step.run.after store) =
      step.run.answer other ::
        (next (step.run.answer other)).unobserved.responses.answer (step.run.after other)
    rw [hrest, hanswer]
  | look observation next ih =>
    -- From here on the counters that the look shows may differ as well.
    have hlook := alike.asked observation.shown
    rw [← observation.after_look store] at hlook
    exact ih hlook apart

/-- Looks change no response to an act that uses no counter shown in a look before. -/
theorem responses_eq_unobserved {script : Script} {store : Store}
    (apart : script.Apart (fun _ => False) store) :
    script.responses.answer store = script.unobserved.responses.answer store :=
  script.answer_unobserved (.refl _ store) apart

/-- A validator with a counting catalog is described between acts that use another catalog, and
moves the counter of its own one on. Its cache and the other catalog answer as if it had not
been. -/
theorem responses_of_described_owner :
    let builder : Builder := { catalog := .numbered (Catalog.counting "missing ") 0 }
    let owner : Validator := builder.build.answer {}
    let store : Store := builder.build.after {}
    let other : Catalog := .numbered (Catalog.counting "needed ") 1
    let script : Script := .act (.required other) fun _ => .look (.describeValidator owner)
      (.act (.serve owner (.parse "{name}")) fun _ => .act (.cacheLength owner) fun _ =>
        .act (.required other) fun _ => .finish)
    script.Apart (fun _ => False) store ∧
      script.responses.answer store = script.unobserved.responses.answer store ∧
      (script.responses.after store).counters 0 = 1 ∧
      (script.unobserved.responses.after store).counters 0 = 0 := by
  intro builder owner store other script
  have apart : script.Apart (fun _ => False) store := by
    -- Only the last act charges a catalog, and it is not the one that was shown.
    refine ⟨nofun, fun counter ⟨_, hcharges, _⟩ => hcharges.elim,
      fun counter ⟨_, hcharges, _⟩ => hcharges.elim, fun counter ⟨catalog, hcharges, huses⟩ => ?_,
      trivial⟩
    cases hcharges
    cases huses
    rintro (hnone | ⟨catalog, hshown, hcounter⟩)
    · exact hnone
    · cases List.mem_singleton.mp hshown
      cases hcounter
  exact ⟨apart, responses_eq_unobserved apart, by decide +kernel, by decide +kernel⟩

/-- The description of a validator can be told from a later answer: a catalog that counts its
messages is one message further. -/
theorem responses_ne_unobserved :
    let owner : Validator :=
      (Builder.build { catalog := .numbered (Catalog.counting "missing ") 0 }).answer {}
    let script : Script :=
      .look (.describeValidator owner) (.act (.required owner.catalog) fun _ => .finish)
    script.responses.answer {} = [.message "missing 1"] ∧
      script.unobserved.responses.answer {} = [.message "missing 0"] ∧
      script.responses.answer {} ≠ script.unobserved.responses.answer {} := by
  intro owner script
  -- To show the next message of a catalog is to ask for it.
  have hlooked : script.responses.answer {} = [.message "missing 1"] := by rfl
  have hunobserved : script.unobserved.responses.answer {} = [.message "missing 0"] := by rfl
  refine ⟨hlooked, hunobserved, ?_⟩
  rw [hlooked, hunobserved]
  simp

end Script

end DocShape
