import DocShape.Proofs.Session.Entries
import DocShape.Proofs.Session.Histories

/-!
# `DocShape.Proofs.Session.Keeping`: what a cache keeps over a run

Copies of a cache are asked for texts, for the number of shapes that are kept and whether there
are any, and they are told to forget all shapes. `ShapeCache.keeps_of_history` says what comes
next, whatever the history is. What is kept was read from its text, and there is never more of it
than the capacity. A text that cannot be read is refused and leaves no trace. As long as the
readable texts requested since the last clearing fit, nothing of them is lost: each was read once
and has a shape of its own, which is found again whenever the text is requested.

`ShapeCache.Keeping` is the invariant, kept by every step (`Keeping.step`). How a cache makes room
is free at every step, within the laws of `Retention`. While there is room, those laws say that
all is kept. There is room because what is kept was requested: its texts are distinct and among
those that were counted.
-/

set_option autoImplicit false

namespace DocShape

namespace ShapeCache

open CacheStep

/-! ### The invariant -/

/-- What holds of a cache after a history that began with the store `store`. -/
structure Keeping (cache : ShapeCache) (store : Store) (history : List CacheStep) (now : Store) :
    Prop where
  orderly : Orderly cache.maxDepth now.readings (readable cache.maxDepth history)
    (now.contents cache.id)
  length_le : (now.contents cache.id).length ≤ cache.capacity
  /-- While there is room, every text that was requested is there. -/
  present : (readable cache.maxDepth history).card ≤ cache.capacity →
    ∀ source ∈ readable cache.maxDepth history,
      source ∈ (now.contents cache.id).map CacheEntry.source
  /-- While there is room, every shape that was answered is there. -/
  complete : (readable cache.maxDepth history).card ≤ cache.capacity →
    ∀ source found, Got store history source found → ⟨source, found⟩ ∈ now.contents cache.id

namespace Keeping

variable {cache handle : ShapeCache} {store now : Store} {history : List CacheStep}
  {source : String}

/-- While there is room, there are as many entries as texts that were requested. -/
theorem length_eq (keeping : cache.Keeping store history now)
    (room : (readable cache.maxDepth history).card ≤ cache.capacity) :
    (now.contents cache.id).length = (readable cache.maxDepth history).card := by
  refine le_antisymm keeping.orderly.length_le_card ?_
  have hsubset : readable cache.maxDepth history ⊆
      ((now.contents cache.id).map CacheEntry.source).toFinset := by
    intro source hsource
    exact List.mem_toFinset.mpr (keeping.present room source hsource)
  have hcard := (Finset.card_le_card hsubset).trans (List.toFinset_card_le _)
  rw [List.length_map] at hcard
  exact hcard

/-- A step that leaves the entries as they are and requests nothing new keeps the invariant, if
what it answers is there. -/
theorem of_contents_eq (keeping : cache.Keeping store history now)
    {step : CacheStep} {next : Store}
    (hcontents : next.contents = now.contents) (hreadings : next.readings = now.readings)
    (hreadable : readable cache.maxDepth (history ++ [step]) = readable cache.maxDepth history)
    (hgot : ∀ source found, Got store (history ++ [step]) source found →
      Got store history source found ∨ ⟨source, found⟩ ∈ now.contents cache.id) :
    cache.Keeping store (history ++ [step]) next where
  orderly := by
    rw [hcontents, hreadings, hreadable]
    exact keeping.orderly
  length_le := by
    rw [hcontents]
    exact keeping.length_le
  present := by
    rw [hcontents, hreadable]
    exact keeping.present
  complete := by
    rw [hcontents, hreadable]
    intro room source found got
    rcases hgot source found got with got | hmem
    · exact keeping.complete room source found got
    · exact hmem

/-- A cache that was cleared has nothing and owes nothing. -/
theorem clear {next : Store} (hcontents : next.contents cache.id = []) :
    cache.Keeping store (history ++ [⟨handle, .clear⟩]) next where
  orderly := by
    rw [hcontents]
    exact .nil ..
  length_le := by
    rw [hcontents]
    exact Nat.zero_le _
  present := by
    rw [readable_clear]
    intro _ source hsource
    exact absurd hsource (Finset.notMem_empty source)
  complete := by
    -- Nothing counts as given any more that was given before the cache was cleared.
    intro _ source found got
    rcases got.of_concat with ⟨huse, -⟩ | ⟨hclear, -⟩
    · cases huse
    · exact absurd rfl hclear

/-- A newcomer is taken in. If there is room for all that was requested, nothing has to go. -/
theorem takeIn (keeping : cache.Keeping store history now) (copy : cache.CopyOf handle)
    {shape : Shape} {next : Store} (missing : lookup source (now.contents cache.id) = none)
    (read : Shape.parse source cache.maxDepth = .ok shape)
    (hgot : ∀ other found, Got store (history ++ [⟨handle, .get source⟩]) other found →
      Got store history other found ∨ (other = source ∧ found = ⟨shape, now.readings⟩))
    (hcontents : next.contents cache.id =
      handle.takeIn source ⟨shape, now.readings⟩ (now.contents cache.id))
    (hreadings : next.readings = now.readings + 1) :
    cache.Keeping store (history ++ [⟨handle, .get source⟩]) next := by
  have hreadable := readable_get_of_ok history handle read
  -- With the newcomer the entries are orderly, and what the cache keeps is a part of them.
  have hall := keeping.orderly.concat (notMem_of_lookup_eq_none missing) read
  -- All entries were requested, so if the requested texts fit, the entries do.
  have hkept (room : (insert source (readable cache.maxDepth history)).card ≤ cache.capacity) :
      next.contents cache.id =
        now.contents cache.id ++ [⟨source, ⟨shape, now.readings⟩⟩] := by
    have hlength := hall.length_le_card.trans room
    rw [← copy.capacity_eq] at hlength
    rw [hcontents]
    exact handle.retention.keep_of_length_le _ _ hlength
  have hroom (room : (insert source (readable cache.maxDepth history)).card ≤ cache.capacity) :
      (readable cache.maxDepth history).card ≤ cache.capacity :=
    (Finset.card_le_card (Finset.subset_insert ..)).trans room
  constructor
  case orderly =>
    rw [hcontents, hreadings, hreadable]
    exact hall.of_sublist (handle.retention.keep_sublist ..)
  case length_le =>
    rw [hcontents, ← copy.capacity_eq]
    exact handle.retention.length_keep_le ..
  case present =>
    rw [hreadable]
    intro room other hother
    rw [hkept room, List.map_append, List.mem_append]
    rcases Finset.mem_insert.mp hother with rfl | hother
    · exact .inr (List.mem_singleton.mpr rfl)
    · exact .inl (keeping.present (hroom room) other hother)
  case complete =>
    rw [hreadable]
    intro room other found got
    rw [hkept room, List.mem_append]
    rcases hgot other found got with got | ⟨rfl, rfl⟩
    · exact .inl (keeping.complete (hroom room) other found got)
    · exact .inr (List.mem_singleton.mpr rfl)

/-- A new cache keeps what it has to. -/
theorem of_fresh (fresh : store.contents cache.id = []) : cache.Keeping store [] store where
  orderly := by
    rw [fresh]
    exact .nil ..
  length_le := by
    rw [fresh]
    exact Nat.zero_le _
  present := by
    intro _ source hsource
    exact absurd hsource (Finset.notMem_empty source)
  complete := by
    rintro _ source found ⟨earlier, handle, later, hhistory, -⟩
    simp at hhistory

/-- A request keeps the invariant, however it is answered. -/
theorem get (keeping : cache.Keeping store history ((runAll history).after store))
    (copy : cache.CopyOf handle) (source : String) :
    cache.Keeping store (history ++ [⟨handle, .get source⟩])
      ((handle.getOrParse source).after ((runAll history).after store)) := by
  generalize hnow : (runAll history).after store = now at keeping ⊢
  show cache.Keeping store _ ((handle.getOrParse source).run now).2
  -- Of the answers only that of the last step is new.
  have hgot (other : String) (earlier : StampedShape)
      (got : Got store (history ++ [⟨handle, .get source⟩]) other earlier) :
      Got store history other earlier ∨
        (other = source ∧ ((handle.getOrParse source).run now).1 = .ok earlier) := by
    rcases got.of_concat with ⟨huse, hanswer⟩ | ⟨-, got⟩
    · cases huse
      rw [hnow] at hanswer
      exact .inr ⟨rfl, hanswer⟩
    · exact .inl got
  have hrun := handle.run_getOrParse source now
  rw [copy.id_eq, copy.maxDepth_eq] at hrun
  cases hlookup : lookup source (now.contents cache.id) with
  | some found =>
    -- A text that is found was requested before, so the request adds nothing to what counts.
    simp only [hlookup] at hrun
    have hmem := mem_of_lookup hlookup
    have hreadable : readable cache.maxDepth (history ++ [⟨handle, .get source⟩]) =
        readable cache.maxDepth history := by
      rw [readable_get_of_ok history handle (keeping.orderly.read _ hmem)]
      exact Finset.insert_eq_of_mem (keeping.orderly.requested _ hmem)
    rw [hrun] at hgot ⊢
    refine keeping.of_contents_eq rfl rfl hreadable fun other earlier got => ?_
    rcases hgot other earlier got with got | ⟨rfl, hanswer⟩
    · exact .inl got
    · cases hanswer
      exact .inr hmem
  | none =>
    simp only [hlookup] at hrun
    cases hread : Shape.parse source cache.maxDepth with
    | error error =>
      -- A text that is refused changes nothing.
      simp only [hread] at hrun
      rw [hrun] at hgot ⊢
      refine keeping.of_contents_eq rfl rfl (readable_get_of_error history handle hread)
        fun other earlier got => ?_
      rcases hgot other earlier got with got | ⟨-, hanswer⟩
      · exact .inl got
      · cases hanswer
    | ok shape =>
      simp only [hread] at hrun
      rw [hrun] at hgot ⊢
      refine keeping.takeIn copy hlookup hread (fun other earlier got => ?_)
        (Store.contents_hold_self ..) rfl
      rcases hgot other earlier got with got | ⟨rfl, hanswer⟩
      · exact .inl got
      · cases hanswer
        exact .inr ⟨rfl, rfl⟩

/-- Every step on a copy keeps the invariant. -/
theorem step (keeping : cache.Keeping store history ((runAll history).after store))
    {step : CacheStep} (copy : cache.CopyOf step.handle) :
    cache.Keeping store (history ++ [step]) ((runAll (history ++ [step])).after store) := by
  rw [after_runAll_concat]
  obtain ⟨handle, use⟩ := step
  -- A step that asks for no text answers no shape, so all answers are old ones.
  have hquiet (hsource : source? ⟨handle, use⟩ = none) (hclear : use ≠ .clear)
      (source : String) (found : StampedShape)
      (got : Got store (history ++ [⟨handle, use⟩]) source found) :
      Got store history source found := by
    rcases got.of_concat with ⟨huse, -⟩ | ⟨-, got⟩
    · cases huse
      cases hsource
    · exact got
  cases use with
  | get source => exact keeping.get copy source
  | length =>
    exact keeping.of_contents_eq rfl rfl (readable_of_source?_eq_none rfl nofun)
      fun source found got => .inl (hquiet rfl nofun source found got)
  | isEmpty =>
    exact keeping.of_contents_eq rfl rfl (readable_of_source?_eq_none rfl nofun)
      fun source found got => .inl (hquiet rfl nofun source found got)
  | clear =>
    refine clear ?_
    rw [← copy.id_eq]
    exact handle.contents_after_clear _

/-- So does a run of steps on copies. -/
theorem runAll (fresh : store.contents cache.id = [])
    (copies : ∀ step ∈ history, cache.CopyOf step.handle) :
    cache.Keeping store history ((CacheStep.runAll history).after store) := by
  induction history using List.reverseRecOn with
  | nil => exact of_fresh fresh
  | append_singleton history last ih =>
    rw [List.forall_mem_append] at copies
    exact (ih copies.1).step (copies.2 last (List.mem_singleton.mpr rfl))

end Keeping

variable {cache handle : ShapeCache} {store now : Store} {history : List CacheStep}

/-! ### What comes next -/

/-- What a copy of a cache does next, once a history that began with the store `store` led to the
store `now`. -/
structure Keeps (cache handle : ShapeCache) (store : Store) (history : List CacheStep)
    (now : Store) : Prop where
  /-- Every shape that is kept is what its text reads as. -/
  read : ∀ entry ∈ now.contents cache.id,
    Shape.parse entry.source cache.maxDepth = .ok entry.found.shape
  /-- There are never more of them than the capacity. -/
  length_le : (now.contents cache.id).length ≤ cache.capacity
  /-- The copy tells how many there are, and whether there is none, and logs nothing. -/
  length : (Session.withEvents handle.length).answer now = ((now.contents cache.id).length, [])
  isEmpty : (Session.withEvents handle.isEmpty).answer now =
    (decide (now.contents cache.id = []), [])
  /-- Clearing leaves none. -/
  clear : (handle.clear.after now).contents cache.id = [] ∧
    (Session.withEvents handle.clear).answer now = ((), [.cacheCleared])
  /-- A text that cannot be read is refused for its own fault, and nothing changes. -/
  refused : ∀ source error, Shape.parse source cache.maxDepth = .error error →
    (handle.getOrParse source).run now = (.error error, now)
  /-- As long as the texts requested since the last clearing fit, there is one entry for each. -/
  length_eq : (readable cache.maxDepth history).card ≤ cache.capacity →
    (now.contents cache.id).length = (readable cache.maxDepth history).card
  /-- As long as they fit together with the next one, a text is read the first time and found from
  then on. It has the very shape that was answered before, and no shape that was answered for
  another text. -/
  get : ∀ source shape, Shape.parse source cache.maxDepth = .ok shape →
    (insert source (readable cache.maxDepth history)).card ≤ cache.capacity →
    ∃ found : StampedShape, found.shape = shape ∧
      (Session.withEvents (handle.getOrParse source)).answer now =
        (.ok found, if source ∈ readable cache.maxDepth history then [.cacheHit source]
          else [.parsed source shape.depth]) ∧
      ∀ other earlier, Got store history other earlier →
        (other = source → earlier = found) ∧ (other ≠ source → earlier.stamp ≠ found.stamp)

namespace Keeping

variable {source : String}

/-- A text that cannot be read is not kept, and reading it again changes nothing. -/
theorem run_of_error (keeping : cache.Keeping store history now) (copy : cache.CopyOf handle)
    {error : SyntaxError} (read : Shape.parse source cache.maxDepth = .error error) :
    (handle.getOrParse source).run now = (.error error, now) := by
  rw [run_getOrParse, copy.id_eq, copy.maxDepth_eq]
  cases hlookup : lookup source (now.contents cache.id) with
  | some found =>
    have hread := keeping.orderly.read _ (mem_of_lookup hlookup)
    rw [read] at hread
    cases hread
  | none => simp only [read]

/-- While there is room, a text is read the first time and found from then on. -/
theorem exists_answer (keeping : cache.Keeping store history now) (copy : cache.CopyOf handle)
    (room : (readable cache.maxDepth history).card ≤ cache.capacity) {shape : Shape}
    (read : Shape.parse source cache.maxDepth = .ok shape) :
    ∃ found : StampedShape, found.shape = shape ∧
      (Session.withEvents (handle.getOrParse source)).answer now =
        (.ok found, if source ∈ readable cache.maxDepth history then [.cacheHit source]
          else [.parsed source shape.depth]) := by
  have hrun := handle.run_getOrParse source now
  rw [copy.id_eq, copy.maxDepth_eq] at hrun
  by_cases requested : source ∈ readable cache.maxDepth history
  · -- A text that was requested is there, since nothing had to go.
    obtain ⟨⟨_, found⟩, hentry, rfl⟩ := List.mem_map.mp (keeping.present room source requested)
    simp only [lookup_of_mem keeping.orderly.sources hentry] at hrun
    have hread := keeping.orderly.read _ hentry
    rw [read] at hread
    refine ⟨found, (Except.ok.inj hread).symm, ?_⟩
    rw [if_pos requested, Session.answer_withEvents (congrArg (fun run => run.2.journal) hrun)]
    show (((handle.getOrParse _).run now).1, _) = _
    rw [hrun]
    rfl
  · -- A text that was not requested is not there, since all that is kept was requested.
    have hlookup : lookup source (now.contents cache.id) = none := by
      rw [Option.eq_none_iff_forall_ne_some]
      intro found hfound
      exact requested (keeping.orderly.requested _ (mem_of_lookup hfound))
    simp only [hlookup, read] at hrun
    refine ⟨⟨shape, now.readings⟩, rfl, ?_⟩
    rw [if_neg requested, Session.answer_withEvents (congrArg (fun run => run.2.journal) hrun)]
    show (((handle.getOrParse _).run now).1, _) = _
    rw [hrun]
    rfl

/-- While there is room, a text has one shape, and no two texts have the same. -/
theorem eq_or_ne_of_got (keeping : cache.Keeping store history now)
    (room : (readable cache.maxDepth history).card ≤ cache.capacity)
    {found earlier : StampedShape} (got : Got store history source found) {other : String}
    (hother : Got store history other earlier) :
    (other = source → earlier = found) ∧ (other ≠ source → earlier.stamp ≠ found.stamp) := by
  have hmem := keeping.complete room source found got
  have hmemOther := keeping.complete room other earlier hother
  constructor
  · rintro rfl
    have hlookup := lookup_of_mem keeping.orderly.sources hmem
    rw [lookup_of_mem keeping.orderly.sources hmemOther] at hlookup
    exact Option.some.inj hlookup
  · intro hne hstamp
    exact hne (keeping.orderly.source_eq_of_stamp_eq hmemOther hmem hstamp)

end Keeping

/-- What a cache keeps and answers after any history of steps on its copies. -/
theorem keeps_of_history (fresh : store.contents cache.id = [])
    (copies : ∀ step ∈ history, cache.CopyOf step.handle) (copy : cache.CopyOf handle) :
    cache.Keeps handle store history ((runAll history).after store) := by
  have keeping : cache.Keeping store history ((runAll history).after store) :=
    .runAll fresh copies
  set now := (runAll history).after store with hnow
  constructor
  case read => exact keeping.orderly.read
  case length_le => exact keeping.length_le
  case length =>
    have hjournal : (Session.after handle.length now).journal = now.journal ++ [] :=
      (List.append_nil _).symm
    rw [← copy.id_eq]
    exact Session.answer_withEvents hjournal
  case isEmpty =>
    have hjournal : (Session.after handle.isEmpty now).journal = now.journal ++ [] :=
      (List.append_nil _).symm
    rw [Session.answer_withEvents hjournal, ← copy.id_eq]
    show (((now.contents handle.id).length == 0), []) = _
    cases now.contents handle.id <;> rfl
  case clear =>
    have hjournal : (Session.after handle.clear now).journal =
        now.journal ++ [.event .cacheCleared] := rfl
    refine ⟨?_, Session.answer_withEvents hjournal⟩
    rw [← copy.id_eq]
    exact handle.contents_after_clear now
  case refused =>
    intro source error read
    exact keeping.run_of_error copy read
  case length_eq => exact keeping.length_eq
  case get =>
    intro source shape read room
    have hreadable := readable_get_of_ok history handle read
    have hroom : (readable cache.maxDepth history).card ≤ cache.capacity :=
      (Finset.card_le_card (Finset.subset_insert ..)).trans room
    obtain ⟨found, hshape, hanswer⟩ := keeping.exists_answer copy hroom read
    refine ⟨found, hshape, hanswer, fun other earlier got => ?_⟩
    -- Once the request is part of the history, both shapes are among those that were answered.
    rw [← hreadable] at room
    exact (keeping.get copy source).eq_or_ne_of_got room
      (.last (congrArg Prod.fst hanswer)) (got.concat nofun)

/-- Keeps what came last, so that the oldest entry goes. -/
def newest : Retention where
  keep capacity entries := entries.drop (entries.length - capacity)
  keep_sublist capacity entries := List.drop_sublist ..
  length_keep_le capacity entries := by
    rw [List.length_drop]
    omega
  keep_of_length_le capacity entries h := by
    rw [Nat.sub_eq_zero_of_le h, List.drop_zero]

/-- Three texts are too many for two places. Once the cache is cleared there is room again for a
text that was there before and for another one with the same shape; the text that is refused does
not count. -/
theorem keeps_after_clear :
    let cache : ShapeCache := { id := 0, capacity := 2 }
    let other : ShapeCache := { cache with retention := newest }
    let history : List CacheStep := [⟨cache, .get "{a}"⟩, ⟨other, .get "[]"⟩, ⟨other, .get "{c}"⟩,
      ⟨cache, .clear⟩, ⟨other, .get "{a}"⟩, ⟨cache, .get "\x7ba"⟩, ⟨cache, .length⟩,
      ⟨other, .get "{ a }"⟩, ⟨cache, .isEmpty⟩]
    let store : Store := {}
    let now : Store := (runAll history).after store
    let shape : Shape := .object [.leaf "a"]
    store.contents cache.id = [] ∧ (∀ step ∈ history, cache.CopyOf step.handle) ∧
      cache.CopyOf other ∧ cache.Keeps other store history now ∧
      readable cache.maxDepth history = {"{a}", "{ a }"} ∧
      now.contents cache.id = [⟨"{a}", ⟨shape, 3⟩⟩, ⟨"{ a }", ⟨shape, 4⟩⟩] ∧
      (Session.withEvents (other.getOrParse "{a}")).answer now =
        (.ok ⟨shape, 3⟩, [.cacheHit "{a}"]) := by
  intro cache other history store now shape
  have copy : cache.CopyOf other := ⟨rfl, rfl, rfl⟩
  have copies : ∀ step ∈ history, cache.CopyOf step.handle := by
    have self := CopyOf.refl cache
    simp [history, self, copy]
  exact ⟨rfl, copies, copy, keeps_of_history rfl copies copy, by decide +kernel,
    by decide +kernel, by decide +kernel⟩

end ShapeCache

end DocShape
