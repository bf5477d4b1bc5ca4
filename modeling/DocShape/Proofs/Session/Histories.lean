import DocShape.Proofs.Session.Reading
import Mathlib.Data.Finset.Card

/-!
# `DocShape.Proofs.Session.Histories`: what was asked of a cache

A history is a list of steps on the copies of a cache. `CacheStep.readable` says which texts
count: those that were requested since the cache was cleared and that can be read. `CacheStep.Got`
says which shapes were answered for them. Both change with the next step in a simple way.
-/

set_option autoImplicit false

namespace DocShape

/-- The events of a session are those that it adds to the journal. -/
theorem Session.answer_withEvents {α : Type} {act : Session α} {store : Store} {notes : List Note}
    (h : (Session.after act store).journal = store.journal ++ notes) :
    (Session.withEvents act).answer store =
      (act.answer store, notes.filterMap Note.event?) := by
  have hdrop : ((Session.after act store).journal).drop store.journal.length = notes := by
    rw [h, List.drop_left]
  rw [← hdrop]
  rfl

/-- What can be done with a cache. -/
inductive CacheUse where
  /-- Asks for the shape of a text. -/
  | get (source : String)
  /-- Asks for the number of shapes that are kept. -/
  | length
  /-- Asks whether no shape is kept. -/
  | isEmpty
  /-- Forgets all shapes. -/
  | clear
  deriving DecidableEq

/-- Something that is done with one of the copies of a cache. -/
structure CacheStep where
  handle : ShapeCache
  use : CacheUse

/-- A copy of a cache shares what is kept and reads under the same limit. How it makes room may
differ from one copy to the next. -/
structure ShapeCache.CopyOf (cache handle : ShapeCache) : Prop where
  id_eq : handle.id = cache.id
  capacity_eq : handle.capacity = cache.capacity
  maxDepth_eq : handle.maxDepth = cache.maxDepth

/-- A cache is a copy of itself. -/
theorem ShapeCache.CopyOf.refl (cache : ShapeCache) : cache.CopyOf cache :=
  ⟨rfl, rfl, rfl⟩

namespace CacheStep

/-- Takes a step, whatever it answers. -/
def run (step : CacheStep) : Session Unit :=
  match step.use with
  | .get source => do
    let _ ← step.handle.getOrParse source
  | .length => do
    let _ ← step.handle.length
  | .isEmpty => do
    let _ ← step.handle.isEmpty
  | .clear => step.handle.clear

/-- Takes steps in order. -/
def runAll : List CacheStep → Session Unit
  | [] => return ()
  | step :: rest => do
    step.run
    runAll rest

/-- The text that a step asks for. -/
def source? (step : CacheStep) : Option String :=
  match step.use with
  | .get source => some source
  | _ => none

/-- The steps since the cache was cleared, latest first. -/
def sinceClear (history : List CacheStep) : List CacheStep :=
  history.reverse.takeWhile fun step => step.use ≠ .clear

/-- The texts that were requested since the cache was cleared and that can be read, each once. -/
def readable (limit : Nat) (history : List CacheStep) : Finset String :=
  ((sinceClear history).filterMap source?).toFinset.filter fun source =>
    (Shape.parse source limit).isOk = true

/-- A copy was asked for a text and answered with a shape, and no copy was cleared since then. -/
def Got (store : Store) (history : List CacheStep) (source : String) (found : StampedShape) :
    Prop :=
  ∃ earlier handle later, history = earlier ++ ⟨handle, .get source⟩ :: later ∧
    (∀ step ∈ later, step.use ≠ .clear) ∧
    (handle.getOrParse source).answer ((runAll earlier).after store) = .ok found

/-! ### One more step -/

/-- A run with one more step is the run and then the step. -/
theorem after_runAll_concat (history : List CacheStep) (step : CacheStep) (store : Store) :
    (runAll (history ++ [step])).after store = step.run.after ((runAll history).after store) := by
  induction history generalizing store with
  | nil => rfl
  | cons first rest ih => exact ih (first.run.after store)

/-- One more step comes behind the others, or clears them away. -/
theorem sinceClear_concat (history : List CacheStep) (step : CacheStep) :
    sinceClear (history ++ [step]) =
      if step.use = .clear then [] else step :: sinceClear history := by
  simp only [sinceClear, List.reverse_append, List.reverse_cons, List.reverse_nil,
    List.nil_append, List.singleton_append, List.takeWhile_cons]
  by_cases h : step.use = .clear <;> simp [h]

variable {limit : Nat} {history : List CacheStep} {handle : ShapeCache} {source : String}

/-- Once the cache is cleared, no text counts. -/
theorem readable_clear : readable limit (history ++ [⟨handle, .clear⟩]) = ∅ := by
  simp [readable, sinceClear_concat]

/-- Steps that ask for no text and clear nothing request nothing. -/
theorem readable_of_source?_eq_none {step : CacheStep} (hsource : step.source? = none)
    (hclear : step.use ≠ .clear) :
    readable limit (history ++ [step]) = readable limit history := by
  simp [readable, sinceClear_concat, hclear, hsource]

/-- A text that can be read is requested from then on. -/
theorem readable_get_of_ok (history : List CacheStep) (handle : ShapeCache) {shape : Shape}
    (h : Shape.parse source limit = .ok shape) :
    readable limit (history ++ [⟨handle, .get source⟩]) =
      insert source (readable limit history) := by
  have hok : (Shape.parse source limit).isOk = true := by
    rw [h]
    rfl
  simp [readable, sinceClear_concat, source?, Finset.filter_insert, hok]

/-- A text that cannot be read does not count. -/
theorem readable_get_of_error (history : List CacheStep) (handle : ShapeCache)
    {error : SyntaxError} (h : Shape.parse source limit = .error error) :
    readable limit (history ++ [⟨handle, .get source⟩]) = readable limit history := by
  have hok : (Shape.parse source limit).isOk = false := by
    rw [h]
    rfl
  simp [readable, sinceClear_concat, source?, Finset.filter_insert, hok]

/-- What a request answers at the last step was answered. -/
theorem Got.last {store : Store} {found : StampedShape}
    (h : (handle.getOrParse source).answer ((runAll history).after store) = .ok found) :
    Got store (history ++ [⟨handle, .get source⟩]) source found :=
  ⟨history, handle, [], rfl, nofun, h⟩

/-- What was answered stays answered after a step that clears nothing. -/
theorem Got.concat {store : Store} {found : StampedShape} (got : Got store history source found)
    {step : CacheStep} (hclear : step.use ≠ .clear) :
    Got store (history ++ [step]) source found := by
  obtain ⟨earlier, handle, later, rfl, hlater, hanswer⟩ := got
  refine ⟨earlier, handle, later ++ [step], by simp, fun other hother => ?_, hanswer⟩
  rcases List.mem_append.mp hother with hother | hother
  · exact hlater other hother
  · rw [List.mem_singleton.mp hother]
    exact hclear

/-- What was answered so far was answered at the last step or before it. -/
theorem Got.of_concat {store : Store} {step : CacheStep} {found : StampedShape}
    (got : Got store (history ++ [step]) source found) :
    (step.use = .get source ∧
        (step.handle.getOrParse source).answer ((runAll history).after store) = .ok found) ∨
      (step.use ≠ .clear ∧ Got store history source found) := by
  obtain ⟨earlier, handle, later, hhistory, hlater, hanswer⟩ := got
  rcases List.eq_nil_or_concat later with rfl | ⟨front, last, rfl⟩
  · -- The request is the last step.
    obtain ⟨rfl, hstep⟩ := List.append_inj' hhistory rfl
    cases List.singleton_inj.mp hstep
    exact .inl ⟨rfl, hanswer⟩
  · -- The request came before the last step, which did not clear the cache then.
    rw [List.concat_eq_append, ← List.cons_append, ← List.append_assoc] at hhistory
    obtain ⟨rfl, hstep⟩ := List.append_inj' hhistory rfl
    cases List.singleton_inj.mp hstep
    rw [List.concat_eq_append] at hlater
    refine .inr ⟨hlater step (by simp), earlier, handle, front, rfl, ?_, hanswer⟩
    intro other hother
    exact hlater other (List.mem_append_left _ hother)

end CacheStep

end DocShape
