import DocShape.Validator.Builder
import DocShape.Proofs.Validator.Journals
import DocShape.Proofs.Validator.Settings

/-!
# `DocShape.Proofs.Session.Caching`: caching does not show in answers

Two validators are built with the same schema, up to the settings of nested validators, with the
same catalog and with the same limit. One may have a cache and the other none, or caches of any
sizes, which drop what they hold whenever they like. `Builder.replies_eq_of_alike`: the same calls
on both get the same replies.

The invariant is `Validator.InStep`: the counters are the same and what the caches hold is sound.
A call keeps it (`InStep.reply`), dropping entries keeps it (`InStep.evict`), and so does a run.
Copies of a validator name the same cache, so calls on copies are calls on the validator.
-/

set_option autoImplicit false

namespace DocShape

/-- What is left in each cache once it dropped some of its entries. -/
structure Eviction where
  keep : CacheId → List CacheEntry → List CacheEntry
  keep_subset : ∀ id entries, keep id entries ⊆ entries

/-- Lets caches drop entries. -/
def Session.evict (eviction : Eviction) : Session Unit :=
  modify fun store =>
    { store with contents := fun id => eviction.keep id (store.contents id) }

/-- A call on a validator. -/
inductive Call where
  /-- Validates a document along the shape of a text. -/
  | validate (source : String) (document : Json)
  /-- Validates a document along a shape. -/
  | validateShape (shape : Shape) (document : Json)
  /-- Reads a shape text. -/
  | parse (source : String)
  /-- Forgets the shapes in the cache. -/
  | clearCache

/-- The reply to a call. -/
inductive Reply where
  /-- To a validation. -/
  | outcome (result : Except ValidateError Outcome)
  /-- To the reading of a text. -/
  | shape (result : Except SyntaxError Shape)
  /-- To anything else. -/
  | done
  deriving DecidableEq

namespace Validator

/-- Replies to a call. -/
def reply (validator : Validator) : Call → Session Reply
  | .validate source document => do
    return .outcome (← validator.validate source document)
  | .validateShape shape document => do
    return .outcome (← validator.validateShape shape document)
  | .parse source => do
    return .shape ((← validator.parse source).map StampedShape.shape)
  | .clearCache => do
    validator.clearCache
    return .done

/-- Replies to calls in order. Before each call, caches may drop entries. -/
def replies (validator : Validator) (evictions : Nat → Eviction) :
    List Call → Session (List Reply)
  | [] => return []
  | call :: rest => do
    Session.evict (evictions 0)
    let reply ← validator.reply call
    let others ← validator.replies (fun turn => evictions (turn + 1)) rest
    return reply :: others

/-- The validator with another way of its cache to make room. -/
def retaining (validator : Validator) (retention : Retention) : Validator :=
  { validator with cache := validator.cache.map fun cache => { cache with retention } }

end Validator

/-- Builds a validator and replies to calls on it. -/
def Builder.replies (builder : Builder) (retention : Retention) (evictions : Nat → Eviction)
    (calls : List Call) : Session (List Reply) := do
  let validator ← builder.build
  (validator.retaining retention).replies evictions calls

/-! ### One call -/

namespace Validator

variable {validator other : Validator} {store otherStore : Store}

/-- Validators that are alike answer a validation alike and move the same counters, if the
counters were the same before. -/
theorem Alike.validateShape (alike : validator.Alike other)
    (counters : store.counters = otherStore.counters) (shape : Shape) (document : Json) :
    (validator.validateShape shape document).answer store =
        (other.validateShape shape document).answer otherStore ∧
      ((validator.validateShape shape document).after store).counters =
        ((other.validateShape shape document).after otherStore).counters := by
  unfold Session.answer Session.after
  -- The evaluation is the same, and it starts from the same counters.
  rw [run_validateShape, run_validateShape, counters, shape.evaluate_eq_of_alike alike]
  cases (shape.evaluate other document).run (Walk.start otherStore.counters) with
  | ok outcome after => exact ⟨rfl, rfl⟩
  | error error after => exact ⟨rfl, rfl⟩

/-- Forgetting shapes moves no counter, and what is left is sound. -/
theorem CacheSound.clearCache (sound : validator.CacheSound store) :
    validator.CacheSound (validator.clearCache.after store) ∧
      (validator.clearCache.after store).counters = store.counters := by
  unfold Validator.clearCache
  cases hcache : validator.cache with
  | none => exact ⟨sound, rfl⟩
  | some cache =>
    refine ⟨fun other hother => ?_, rfl⟩
    rw [hcache] at hother
    cases hother
    -- An empty cache holds nothing that could be wrong.
    refine (sound cache hcache).of_subset ?_
    rw [cache.contents_after_clear]
    exact List.nil_subset _

/-- A call leaves sound shapes in the cache. -/
theorem CacheSound.reply (sound : validator.CacheSound store) (call : Call) :
    validator.CacheSound ((validator.reply call).after store) := by
  cases call with
  | validate source document => exact sound.validate source document
  | validateShape shape document =>
    exact sound.of_contents_eq (validator.contents_after_validateShape shape document store)
  | parse source => exact (sound.parse source).2.1
  | clearCache => exact sound.clearCache.1

/-- Two validators can be told apart by their settings at most, and what they have seen so far
moved the same counters and left sound shapes in their caches. -/
structure InStep (validator other : Validator) (store otherStore : Store) : Prop where
  alike : validator.Alike other
  limit : validator.limit = other.limit
  counters : store.counters = otherStore.counters
  sound : validator.CacheSound store
  otherSound : other.CacheSound otherStore

namespace InStep

/-- Dropping entries keeps two validators in step, whatever each of them drops. -/
theorem evict (inStep : InStep validator other store otherStore)
    (eviction otherEviction : Eviction) :
    InStep validator other ((Session.evict eviction).after store)
      ((Session.evict otherEviction).after otherStore) where
  alike := inStep.alike
  limit := inStep.limit
  counters := inStep.counters
  sound := inStep.sound.of_subset fun id => eviction.keep_subset id _
  otherSound := inStep.otherSound.of_subset fun id => otherEviction.keep_subset id _

/-- Two validators in step reply alike to a call and stay in step. -/
theorem reply (inStep : InStep validator other store otherStore) (call : Call) :
    (validator.reply call).answer store = (other.reply call).answer otherStore ∧
      InStep validator other ((validator.reply call).after store)
        ((other.reply call).after otherStore) := by
  -- Each cache stays sound on its own. Left are the answers and the counters.
  have hsound := inStep.sound.reply call
  have hotherSound := inStep.otherSound.reply call
  suffices h : (validator.reply call).answer store = (other.reply call).answer otherStore ∧
      ((validator.reply call).after store).counters =
        ((other.reply call).after otherStore).counters from
    ⟨h.1, inStep.alike, inStep.limit, h.2, hsound, hotherSound⟩
  cases call with
  | validate source document =>
    have hcounters : ((validator.parse source).after store).counters =
        ((other.parse source).after otherStore).counters := by
      rw [(inStep.sound.parse source).2.2, (inStep.otherSound.parse source).2.2, inStep.counters]
    suffices h : (validator.validate source document).answer store =
          (other.validate source document).answer otherStore ∧
        ((validator.validate source document).after store).counters =
          ((other.validate source document).after otherStore).counters from
      ⟨congrArg Reply.outcome h.1, h.2⟩
    -- A validator with a sound cache reads its text as if it had none.
    unfold Session.answer Session.after
    rw [inStep.sound.run_validate, inStep.otherSound.run_validate, inStep.limit]
    cases Shape.parse source other.limit with
    | error error => exact ⟨rfl, hcounters⟩
    | ok shape => exact inStep.alike.validateShape hcounters shape document
  | validateShape shape document =>
    obtain ⟨hanswer, hcounters⟩ := inStep.alike.validateShape inStep.counters shape document
    exact ⟨congrArg Reply.outcome hanswer, hcounters⟩
  | parse source =>
    -- Both answer what reading answers under the same limit.
    obtain ⟨hanswer, -, hcounters⟩ := inStep.sound.parse source
    obtain ⟨hotherAnswer, -, hotherCounters⟩ := inStep.otherSound.parse source
    rw [inStep.limit, ← hotherAnswer] at hanswer
    rw [inStep.counters, ← hotherCounters] at hcounters
    exact ⟨congrArg Reply.shape hanswer, hcounters⟩
  | clearCache =>
    obtain ⟨-, hcounters⟩ := inStep.sound.clearCache
    obtain ⟨-, hotherCounters⟩ := inStep.otherSound.clearCache
    rw [inStep.counters, ← hotherCounters] at hcounters
    exact ⟨rfl, hcounters⟩

end InStep

/-! ### Runs of calls -/

/-- Two validators in step reply alike to calls in a row. -/
theorem InStep.replies (inStep : InStep validator other store otherStore)
    (evictions otherEvictions : Nat → Eviction) (calls : List Call) :
    (validator.replies evictions calls).answer store =
      (other.replies otherEvictions calls).answer otherStore := by
  -- Along the calls. Each turn both drop what they like first and reply then.
  induction calls generalizing store otherStore evictions otherEvictions with
  | nil => rfl
  | cons call rest ih =>
    obtain ⟨hreply, hnext⟩ :=
      (inStep.evict (evictions 0) (otherEvictions 0)).reply call
    have hrest := ih hnext (fun turn => evictions (turn + 1))
      (fun turn => otherEvictions (turn + 1))
    exact congrArg₂ List.cons hreply hrest

end Validator

namespace Validator

variable {validator : Validator}

/-- How a cache makes room changes neither the limit nor what the cache holds. -/
theorem limit_retaining (retention : Retention) :
    (validator.retaining retention).limit = validator.limit := by
  unfold limit retaining
  cases validator.cache <;> rfl

/-- How a cache makes room does not matter for what it holds now. -/
theorem CacheSound.retaining {store : Store} (sound : validator.CacheSound store)
    (retention : Retention) : (validator.retaining retention).CacheSound store := by
  intro cache hcache
  obtain ⟨inner, hinner, rfl⟩ := Option.map_eq_some_iff.mp hcache
  exact sound inner hinner

end Validator

namespace Builder

variable {builder other : Builder} {store otherStore : Store}

/-- The settings of a builder decide on the settings of its validator and on nothing else. -/
theorem alike_build
    (schemas : builder.schema.Alike other.schema)
    (catalogs : builder.catalog = other.catalog) (retention otherRetention : Retention) :
    ((builder.build.answer store).retaining retention).Alike
      ((other.build.answer otherStore).retaining otherRetention) := by
  unfold Session.answer
  rw [run_build, run_build, catalogs]
  exact .settings schemas ..

/-- Validators that are built alike and with the same limit start in step. -/
theorem inStep_build
    (schemas : builder.schema.Alike other.schema)
    (catalogs : builder.catalog = other.catalog)
    (limits : builder.config.maxDepth = other.config.maxDepth)
    (counters : store.counters = otherStore.counters)
    (fresh : store.contents store.nextCache = [])
    (otherFresh : otherStore.contents otherStore.nextCache = [])
    (retention otherRetention : Retention) :
    Validator.InStep ((builder.build.answer store).retaining retention)
      ((other.build.answer otherStore).retaining otherRetention)
      (builder.build.after store) (other.build.after otherStore) where
  alike := alike_build schemas catalogs retention otherRetention
  limit := by
    rw [Validator.limit_retaining, Validator.limit_retaining, limit_build, limit_build, limits]
  counters := by
    unfold Session.after
    rw [run_build, run_build]
    exact counters
  sound := (builder.cacheSound_build fresh).retaining retention
  otherSound := (other.cacheSound_build otherFresh).retaining otherRetention

/-- Validators built with schemas that differ at most in the settings of nested validators, with
the same catalog and with the same limit reply alike to the same calls. Whether they have a cache,
how large it is, how it makes room and what it drops in between does not show. -/
theorem replies_eq_of_alike
    (schemas : builder.schema.Alike other.schema)
    (catalogs : builder.catalog = other.catalog)
    (limits : builder.config.maxDepth = other.config.maxDepth)
    (counters : store.counters = otherStore.counters)
    (fresh : store.contents store.nextCache = [])
    (otherFresh : otherStore.contents otherStore.nextCache = [])
    (retention otherRetention : Retention) (evictions otherEvictions : Nat → Eviction)
    (calls : List Call) :
    (builder.replies retention evictions calls).answer store =
      (other.replies otherRetention otherEvictions calls).answer otherStore := by
  have inStep := inStep_build schemas catalogs limits counters fresh otherFresh
    retention otherRetention
  exact inStep.replies evictions otherEvictions calls

/-- A cache with one place that is emptied on the way, and no cache at all. The nested validators
differ in their settings as well. The second validation finds its shape in the cache. -/
theorem replies_eq_without_cache :
    let catalog : Catalog := .numbered (Catalog.counting "missing ") 0
    let small : Builder :=
      { schema := .ofList [("pets", .nested ⟨∅, catalog, some { id := 7 }, 9⟩)]
        catalog
        config := { cache := { maxEntries := 1 }, maxDepth := 3 } }
    let plain : Builder :=
      { schema := .ofList [("pets", .nested ⟨∅, catalog, none, 0⟩)]
        catalog
        config := { cache := .disabled, maxDepth := 3 } }
    let emptied : Eviction := ⟨fun _ _ => [], fun _ entries => List.nil_subset entries⟩
    let kept : Eviction := ⟨fun _ entries => entries, fun _ entries => List.Subset.refl entries⟩
    let evictions : Nat → Eviction := fun turn => if turn = 2 then emptied else kept
    let document : Json := .object [("pets", .array [.object []])]
    let calls : List Call := [.validate "{pets[{name}]}" document,
      .validate "{pets[{name}]}" document, .parse "\x7ba", .clearCache, .parse "{ a }"]
    let outcome : String → Outcome := fun message =>
      ⟨some document, some (.object [("pets", .array [.object [("name", .string message)]])])⟩
    let replies : List Reply := [.outcome (.ok (outcome "missing 0")),
      .outcome (.ok (outcome "missing 1")), .shape (.error (.unclosed '\x7b' 0)), .done,
      .shape (.ok (.object [.leaf "a"]))]
    let store : Store := {}
    small.schema.Alike plain.schema ∧
      small.catalog = plain.catalog ∧ small.config.maxDepth = plain.config.maxDepth ∧
      store.contents store.nextCache = [] ∧
      (small.replies .oldest evictions calls).answer store =
        (plain.replies .oldest (fun _ => kept) calls).answer store ∧
      (plain.replies .oldest (fun _ => kept) calls).answer store = replies := by
  intro catalog small plain emptied kept evictions document calls outcome replies store
  -- The two nested validators have a cache and a limit each, which is all that tells them apart.
  have none : Schema.Alike ∅ ∅ := .entries fun _ => .none
  have schemas : small.schema.Alike plain.schema := by
    refine .entries fun name => ?_
    show Option.Rel _ (if "pets" = name then _ else _) (if "pets" = name then _ else _)
    split
    · exact .some (.nested (.settings none ..))
    · exact .none
  have heq := replies_eq_of_alike schemas rfl rfl (rfl : store.counters = store.counters) rfl rfl
    .oldest .oldest evictions (fun _ => kept) calls
  exact ⟨schemas, rfl, rfl, rfl, heq, by decide +kernel⟩

end Builder

end DocShape
