import DocShape.Proofs.Session.Caching
import DocShape.Proofs.Shape.Limits

/-!
# `DocShape.Proofs.Session.Handles`: handles of one cache with limits of their own

Handles of one cache share what is kept, and each has a limit for the texts that it reads itself.
What is kept stands under its text alone, so a handle may find a shape that another one read under
a greater limit. `CacheCall.answer_of_handles` says that nothing else can happen, whatever is
asked of which handle in which order: a handle answers what it would read itself, or else the text
nests too deep for it, and it answers the shape that another handle read since the cache was
cleared.

The invariant is `ShapeCache.Explained`: every shape that is kept was read by some handle that was
asked for its text since then. A call keeps it (`Explained.call`), dropping entries keeps it
(`Explained.evict`), and so does a run of calls.
-/

set_option autoImplicit false

namespace DocShape

/-- The handles of one cache: the handle itself, which is what copies of it are, and handles with
another limit. -/
inductive ShapeCache.HandleOf (cache : ShapeCache) : ShapeCache → Prop where
  | self : HandleOf cache cache
  | withMaxDepth {handle : ShapeCache} (inner : HandleOf cache handle) (limit : Nat) :
    HandleOf cache (handle.withMaxDepth limit)

/-- All handles of a cache share what it keeps. -/
theorem ShapeCache.HandleOf.id_eq {cache handle : ShapeCache} (of : cache.HandleOf handle) :
    handle.id = cache.id := by
  induction of with
  | self => rfl
  | withMaxDepth _ _ ih => exact ih

/-- What a handle of a cache can be asked. -/
inductive CacheRequest where
  /-- The shape of a text. -/
  | get (source : String)
  /-- The number of shapes that are kept. -/
  | length
  /-- Forgets all shapes. -/
  | clear
  deriving DecidableEq

/-- A request to one of the handles. -/
structure CacheCall where
  handle : ShapeCache
  request : CacheRequest

/-- The reply to a request. -/
inductive CacheReply where
  | shape (result : Except SyntaxError StampedShape)
  | length (count : Nat)
  | done
  deriving DecidableEq

namespace CacheCall

/-- Replies to a request. -/
def reply (call : CacheCall) : Session CacheReply :=
  match call.request with
  | .get source => do
    return .shape (← call.handle.getOrParse source)
  | .length => do
    return .length (← call.handle.length)
  | .clear => do
    call.handle.clear
    return .done

/-- Replies to requests in order. Before each of them, the cache may drop entries. -/
def replies (evictions : Nat → Eviction) : List CacheCall → Session (List CacheReply)
  | [] => return []
  | call :: rest => do
    Session.evict (evictions 0)
    let reply ← call.reply
    let others ← replies (fun turn => evictions (turn + 1)) rest
    return reply :: others

/-- A handle was asked for a text, and no handle was asked to forget since then. -/
def AskedSince (history : List CacheCall) (handle : ShapeCache) (source : String) : Prop :=
  ∃ before after, history = before ++ ⟨handle, .get source⟩ :: after ∧
    ∀ call ∈ after, call.request ≠ .clear

variable {history : List CacheCall} {handle : ShapeCache} {source : String}

/-- The last call asks its handle. -/
theorem AskedSince.last (history : List CacheCall) (handle : ShapeCache) (source : String) :
    AskedSince (history ++ [⟨handle, .get source⟩]) handle source :=
  ⟨history, [], rfl, nofun⟩

/-- What was asked since the cache was cleared still was after a call that clears nothing. -/
theorem AskedSince.append (asked : AskedSince history handle source) {call : CacheCall}
    (h : call.request ≠ .clear) : AskedSince (history ++ [call]) handle source := by
  obtain ⟨before, after, rfl, keeps⟩ := asked
  refine ⟨before, after ++ [call], by simp, fun other hother => ?_⟩
  rcases List.mem_append.mp hother with hother | hother
  · exact keeps other hother
  · rw [List.mem_singleton.mp hother]
    exact h

/-- What a handle may answer for a text after the calls of a history. -/
inductive Answers (history : List CacheCall) (handle : ShapeCache) (source : String) :
    Except SyntaxError Shape → Prop where
  /-- What it reads itself. -/
  | own : Answers history handle source (Shape.parse source handle.maxDepth)
  /-- What another handle read, where the text nests too deep for this one. -/
  | found {other : ShapeCache} {shape : Shape} {offset : Nat}
    (asked : AskedSince history other source)
    (read : Shape.parse source other.maxDepth = .ok shape)
    (deeper : handle.maxDepth < shape.depth)
    (tooDeep : Shape.parse source handle.maxDepth = .error (.tooDeep handle.maxDepth offset)) :
    Answers history handle source (.ok shape)

/-- Where no handle with a greater limit was asked for the text, a handle answers what it
reads. -/
theorem Answers.eq_parse {result : Except SyntaxError Shape}
    (answers : Answers history handle source result)
    (h : ∀ other, AskedSince history other source → other.maxDepth ≤ handle.maxDepth) :
    result = Shape.parse source handle.maxDepth := by
  cases answers with
  | own => rfl
  | found asked read deeper =>
    have hother := h _ asked
    have hdepth := (Shape.parse_eq_ok_iff.mp read).2.2
    omega

end CacheCall

namespace ShapeCache

open CacheCall

/-- Every shape that the cache keeps was read by a handle that was asked for its text since the
cache was cleared. -/
def Explained (cache : ShapeCache) (history : List CacheCall) (store : Store) : Prop :=
  ∀ entry ∈ store.contents cache.id, ∃ handle, AskedSince history handle entry.source ∧
    Shape.parse entry.source handle.maxDepth = .ok entry.found.shape

namespace Explained

variable {cache handle : ShapeCache} {history : List CacheCall} {store : Store}

/-- Dropping entries leaves less to explain. -/
theorem evict (explained : cache.Explained history store) (eviction : Eviction) :
    cache.Explained history ((Session.evict eviction).after store) :=
  fun entry hentry => explained entry (eviction.keep_subset cache.id _ hentry)

/-- A call that forgets nothing and adds nothing leaves the explanations as they are. -/
theorem append (explained : cache.Explained history store) {call : CacheCall}
    (h : call.request ≠ .clear) : cache.Explained (history ++ [call]) store := by
  intro entry hentry
  obtain ⟨other, asked, read⟩ := explained entry hentry
  exact ⟨other, asked.append h, read⟩

/-- A handle answers a text as it may, and what it keeps is explained by the call. -/
theorem getOrParse (explained : cache.Explained history store) (of : cache.HandleOf handle)
    (source : String) :
    Answers history handle source
        (((handle.getOrParse source).answer store).map StampedShape.shape) ∧
      cache.Explained (history ++ [⟨handle, .get source⟩])
        ((handle.getOrParse source).after store) := by
  have explained' : cache.Explained (history ++ [⟨handle, .get source⟩]) store :=
    explained.append nofun
  unfold Session.answer Session.after
  rw [run_getOrParse, of.id_eq]
  cases hlookup : lookup source (store.contents cache.id) with
  | some found =>
    refine ⟨?_, explained'⟩
    obtain ⟨other, asked, read⟩ := explained _ (mem_of_lookup hlookup)
    show Answers history handle source (.ok found.shape)
    -- A hit does not look at the limit, so the depth of what is found decides.
    by_cases fits : found.shape.depth ≤ handle.maxDepth
    · rw [← Shape.parse_of_depth_le read fits]
      exact .own
    · have deeper : handle.maxDepth < found.shape.depth := by omega
      obtain ⟨offset, tooDeep⟩ := Shape.parse_of_deeper read deeper
      exact .found asked read deeper tooDeep
  | none =>
    have hown : Answers history handle source (Shape.parse source handle.maxDepth) := .own
    cases read : Shape.parse source handle.maxDepth with
    | error error =>
      rw [read] at hown
      exact ⟨hown, explained'⟩
    | ok shape =>
      rw [read] at hown
      refine ⟨hown, fun entry hentry => ?_⟩
      -- What is kept now was kept before or is the new shape.
      rw [Store.contents_hold_self] at hentry
      have hmem := (handle.retention.keep_sublist handle.capacity _).subset hentry
      rcases List.mem_append.mp hmem with hmem | hmem
      · exact explained' entry hmem
      · rw [List.mem_singleton.mp hmem]
        exact ⟨handle, .last history handle source, read⟩

/-- A call leaves shapes in the cache that the history with the call explains. -/
theorem call (explained : cache.Explained history store) {call : CacheCall}
    (of : cache.HandleOf call.handle) :
    cache.Explained (history ++ [call]) (call.reply.after store) := by
  obtain ⟨handle, request⟩ := call
  cases request with
  | get source => exact (explained.getOrParse of source).2
  | length => exact explained.append nofun
  | clear =>
    intro entry hentry
    have hmem : entry ∈ (handle.clear.after store).contents cache.id := hentry
    rw [← of.id_eq, handle.contents_after_clear] at hmem
    cases hmem

/-- Calls in a row are each replied to in a store that is explained by the calls in front. -/
theorem replies (explained : cache.Explained history store) {earlier : List CacheCall}
    (handles : ∀ call ∈ earlier, cache.HandleOf call.handle) (call : CacheCall)
    (later : List CacheCall) (evictions : Nat → Eviction) :
    ∃ between, cache.Explained (history ++ earlier) between ∧
      ((CacheCall.replies evictions (earlier ++ call :: later)).answer store)[earlier.length]? =
        some (call.reply.answer between) := by
  -- Along the calls in front: the first one moves from them to the history.
  induction earlier generalizing history store evictions with
  | nil =>
    rw [List.append_nil]
    exact ⟨_, explained.evict (evictions 0), rfl⟩
  | cons first earlier ih =>
    have hfirst := (explained.evict (evictions 0)).call (handles first List.mem_cons_self)
    obtain ⟨between, hbetween, hreply⟩ := ih hfirst
      (fun other hother => handles other (List.mem_cons_of_mem first hother))
      (fun turn => evictions (turn + 1))
    rw [List.append_assoc] at hbetween
    exact ⟨between, hbetween, hreply⟩

end Explained

end ShapeCache

namespace CacheCall

/-- A handle of a cache that is asked for a text among other calls on handles of that cache, with
any limits, answers what reading the text under its own limit gives, an error as well as a shape.
There is one exception: where the text nests too deep for the handle, it may answer the shape that
another handle with a greater limit was asked for since the cache was cleared. -/
theorem answer_of_handles {cache handle : ShapeCache} {store : Store} {earlier : List CacheCall}
    (fresh : store.contents cache.id = [])
    (handles : ∀ call ∈ earlier, cache.HandleOf call.handle) (of : cache.HandleOf handle)
    (source : String) (later : List CacheCall) (evictions : Nat → Eviction) :
    ∃ result : Except SyntaxError StampedShape,
      ((replies evictions (earlier ++ ⟨handle, .get source⟩ :: later)).answer store)[
          earlier.length]? = some (.shape result) ∧
        Answers earlier handle source (result.map StampedShape.shape) := by
  have explained : cache.Explained [] store := by
    intro entry hentry
    rw [fresh] at hentry
    cases hentry
  obtain ⟨between, hbetween, hreply⟩ :=
    explained.replies handles ⟨handle, .get source⟩ later evictions
  exact ⟨_, hreply, (hbetween.getOrParse of source).1⟩

/-- A handle with the limit 1 after one with the limit 2. Once the cache is cleared, the handle
refuses the text by itself, although a text of that depth was read before and another one
since. -/
theorem answer_of_narrow_handle :
    let cache : ShapeCache := { id := 0, maxDepth := 2 }
    let narrow := (cache.withMaxDepth 3).withMaxDepth 1
    let kept : Eviction := ⟨fun _ entries => entries, fun _ entries => List.Subset.refl entries⟩
    let earlier : List CacheCall := [⟨cache, .get "[[]]"⟩, ⟨narrow, .clear⟩,
      ⟨cache.withMaxDepth 3, .get "[[[]]]"⟩]
    let store : Store := {}
    store.contents cache.id = [] ∧ (∀ call ∈ earlier, cache.HandleOf call.handle) ∧
      cache.HandleOf narrow ∧
      ∃ result : Except SyntaxError StampedShape,
        ((replies (fun _ => kept) (earlier ++ ⟨narrow, .get "[[]]"⟩ :: [])).answer store)[3]? =
            some (.shape result) ∧
          Answers earlier narrow "[[]]" (result.map StampedShape.shape) ∧
          result = .error (.tooDeep 1 1) := by
  intro cache narrow kept earlier store
  have wide : cache.HandleOf (cache.withMaxDepth 3) := .withMaxDepth .self 3
  have of : cache.HandleOf narrow := .withMaxDepth wide 1
  have handles : ∀ call ∈ earlier, cache.HandleOf call.handle :=
    List.forall_mem_cons.mpr ⟨.self, List.forall_mem_cons.mpr ⟨of,
      List.forall_mem_cons.mpr ⟨wide, nofun⟩⟩⟩
  -- The theorem explains some reply, and the run shows which one it is.
  obtain ⟨result, hreply, answers⟩ :=
    answer_of_handles (rfl : store.contents cache.id = []) handles of "[[]]" [] fun _ => kept
  have hrefused : ((replies (fun _ => kept) (earlier ++ ⟨narrow, .get "[[]]"⟩ :: [])).answer
      store)[3]? = some (.shape (.error (.tooDeep 1 1))) := by decide +kernel
  have hresult : CacheReply.shape result = .shape (.error (.tooDeep 1 1)) :=
    Option.some.inj (hreply.symm.trans hrefused)
  exact ⟨rfl, handles, of, result, hreply, answers, CacheReply.shape.inj hresult⟩

/-- A handle with the limit 1 finds a shape of depth 2 that a handle of the same cache read under
the limit 2. By itself it refuses the text. -/
theorem narrow_handle_finds_deeper_shape :
    let cache : ShapeCache := { id := 0, maxDepth := 2 }
    let narrow := cache.withMaxDepth 1
    let kept : Eviction := ⟨fun _ entries => entries, fun _ entries => List.Subset.refl entries⟩
    let shape : Shape := .arrayOf .emptyArray
    cache.HandleOf narrow ∧
      (replies (fun _ => kept) [⟨cache, .get "[[]]"⟩, ⟨narrow, .get "[[]]"⟩]).answer {} =
        [.shape (.ok ⟨shape, 0⟩), .shape (.ok ⟨shape, 0⟩)] ∧
      narrow.maxDepth < shape.depth ∧
      Shape.parse "[[]]" narrow.maxDepth = .error (.tooDeep narrow.maxDepth 1) := by
  intro cache narrow kept shape
  exact ⟨.withMaxDepth .self 1, by decide +kernel, by decide +kernel, by decide +kernel⟩

end CacheCall

end DocShape
