import DocShape.Proofs.Session.Reading
import Mathlib.Data.Finset.Card

/-!
# `DocShape.Proofs.Session.Entries`: the entries of a cache

A cache has at most one entry for a text, so an entry that is there is found
(`ShapeCache.lookup_of_mem`). `ShapeCache.Orderly` says what else holds of the entries of one
cache: each was read from its own text, and its stamp is its own. Entries stay orderly when some
of them are dropped and when a text that was not there comes in with the next stamp.
-/

set_option autoImplicit false

namespace DocShape

namespace ShapeCache

/-! ### Looking entries up -/

/-- A text that is not found has no entry. -/
theorem notMem_of_lookup_eq_none {source : String} {entries : List CacheEntry}
    (h : lookup source entries = none) : source ∉ entries.map CacheEntry.source := by
  induction entries with
  | nil => simp
  | cons entry rest ih =>
    -- The search goes on only behind an entry with another text.
    simp only [lookup] at h
    split at h
    · cases h
    · next hne =>
      simp only [List.map_cons, List.mem_cons, not_or]
      exact ⟨Ne.symm hne, ih h⟩

/-- An entry is found if no other has its text. -/
theorem lookup_of_mem {source : String} {found : StampedShape} {entries : List CacheEntry}
    (nodup : (entries.map CacheEntry.source).Nodup) (h : ⟨source, found⟩ ∈ entries) :
    lookup source entries = some found := by
  induction entries with
  | nil => cases h
  | cons entry rest ih =>
    obtain ⟨hfresh, nodup⟩ := List.nodup_cons.mp nodup
    rcases List.mem_cons.mp h with rfl | h
    · simp [lookup]
    · -- The entry stands further back, so the first one must have another text.
      have hne : entry.source ≠ source := fun heq => hfresh (heq ▸ List.mem_map_of_mem h)
      simp only [lookup, hne, if_false]
      exact ih nodup h

/-! ### The entries of one cache -/

/-- Entries as a cache has them: each was read from its own text, no text and no stamp is there
twice, and all of them were requested. The next stamp is a new one. -/
structure Orderly (limit readings : Nat) (requested : Finset String) (entries : List CacheEntry) :
    Prop where
  read : ∀ entry ∈ entries, Shape.parse entry.source limit = .ok entry.found.shape
  sources : (entries.map CacheEntry.source).Nodup
  stamps : (entries.map fun entry => entry.found.stamp).Nodup
  stamp_lt : ∀ entry ∈ entries, entry.found.stamp < readings
  requested : ∀ entry ∈ entries, entry.source ∈ requested

namespace Orderly

variable {limit readings : Nat} {requested : Finset String} {entries others : List CacheEntry}

/-- No entries are orderly. -/
theorem nil (limit readings : Nat) (requested : Finset String) :
    Orderly limit readings requested [] :=
  ⟨nofun, List.nodup_nil, List.nodup_nil, nofun, nofun⟩

/-- Some of the entries are as orderly as all. -/
theorem of_sublist (orderly : Orderly limit readings requested entries)
    (h : others.Sublist entries) : Orderly limit readings requested others where
  read entry hentry := orderly.read entry (h.subset hentry)
  sources := orderly.sources.sublist (h.map _)
  stamps := orderly.stamps.sublist (h.map _)
  stamp_lt entry hentry := orderly.stamp_lt entry (h.subset hentry)
  requested entry hentry := orderly.requested entry (h.subset hentry)

/-- A text that was not there comes in with the next stamp. -/
theorem concat (orderly : Orderly limit readings requested entries) {source : String}
    {shape : Shape} (fresh : source ∉ entries.map CacheEntry.source)
    (read : Shape.parse source limit = .ok shape) :
    Orderly limit (readings + 1) (insert source requested)
      (entries ++ [⟨source, ⟨shape, readings⟩⟩]) where
  read := by
    intro entry hentry
    rcases List.mem_append.mp hentry with hentry | hentry
    · exact orderly.read entry hentry
    · rw [List.mem_singleton.mp hentry]
      exact read
  sources := by
    rw [List.map_append]
    refine List.nodup_append.mpr ⟨orderly.sources, List.nodup_singleton _, ?_⟩
    intro other hother last hlast heq
    rw [heq, List.mem_singleton.mp hlast] at hother
    exact fresh hother
  stamps := by
    rw [List.map_append]
    refine List.nodup_append.mpr ⟨orderly.stamps, List.nodup_singleton _, ?_⟩
    intro stamp hstamp last hlast heq
    -- All stamps so far are smaller than the next one.
    obtain ⟨entry, hentry, rfl⟩ := List.mem_map.mp hstamp
    have hlt : entry.found.stamp < readings := orderly.stamp_lt entry hentry
    have hstamp : entry.found.stamp = last := heq
    have hnew : last = readings := List.mem_singleton.mp hlast
    omega
  stamp_lt := by
    intro entry hentry
    rcases List.mem_append.mp hentry with hentry | hentry
    · have hlt := orderly.stamp_lt entry hentry
      omega
    · rw [List.mem_singleton.mp hentry]
      show readings < readings + 1
      omega
  requested := by
    intro entry hentry
    rcases List.mem_append.mp hentry with hentry | hentry
    · exact Finset.mem_insert_of_mem (orderly.requested entry hentry)
    · rw [List.mem_singleton.mp hentry]
      exact Finset.mem_insert_self ..

/-- There are no more entries than texts that were requested. -/
theorem length_le_card (orderly : Orderly limit readings requested entries) :
    entries.length ≤ requested.card := by
  -- No text is there twice, so the entries are as many as their texts.
  have hsubset : (entries.map CacheEntry.source).toFinset ⊆ requested := by
    intro source hsource
    obtain ⟨entry, hentry, rfl⟩ := List.mem_map.mp (List.mem_toFinset.mp hsource)
    exact orderly.requested entry hentry
  have hcard := Finset.card_le_card hsubset
  rw [List.toFinset_card_of_nodup orderly.sources, List.length_map] at hcard
  exact hcard

/-- Entries with one stamp have one text. -/
theorem source_eq_of_stamp_eq (orderly : Orderly limit readings requested entries)
    {source other : String} {found earlier : StampedShape} (h : ⟨source, found⟩ ∈ entries)
    (hother : ⟨other, earlier⟩ ∈ entries) (hstamp : found.stamp = earlier.stamp) :
    source = other := by
  have heq := List.inj_on_of_nodup_map orderly.stamps h hother hstamp
  exact congrArg CacheEntry.source heq

end Orderly

end ShapeCache

end DocShape
