import DocShape.Json.Reader
import Mathlib.Data.String.Basic

/-!
# `DocShape.Proofs.Json.Members`: the members of an object as a map

The members of an object stand in increasing order of their keys (`Members.Increasing`). Setting
the value of a key keeps them so, and then lookup says all there is to know: two objects that find
the same values are equal (`Members.Increasing.ext`).

`Json.isOrdered` says that the members of every object in a value are in order. Every value that
is read from a text is (`Json.isOrdered_of_read?`).
-/

set_option autoImplicit false

namespace DocShape

namespace Members

variable {key other : String} {value found : Json} {members others : Members}

/-! ### Members and keys -/

/-- A value that is found stands among the members, under the key it was found under. -/
theorem mem_of_get? (h : get? key members = some value) : (key, value) ∈ members := by
  induction members with
  | nil => cases h
  | cons entry rest ih =>
    obtain ⟨other, found⟩ := entry
    simp only [get?] at h
    split at h
    · next heq =>
      cases h
      subst heq
      exact List.mem_cons_self
    · exact List.mem_cons_of_mem _ (ih h)

/-- A key is one that has a value. -/
theorem mem_keys_iff : key ∈ members.keys ↔ (get? key members).isSome = true := by
  induction members with
  | nil => simp [keys]
  | cons entry rest ih =>
    obtain ⟨other, found⟩ := entry
    simp only [keys, List.map_cons, List.mem_cons, get?] at ih ⊢
    by_cases heq : other = key
    · simp [heq]
    · have hne : key ≠ other := Ne.symm heq
      simp only [heq, hne, if_false, false_or]
      exact ih

/-- What is there once a value was set is that value, or was there before. -/
theorem mem_insert (h : (other, found) ∈ insert key value members) :
    (other = key ∧ found = value) ∨ (other, found) ∈ members := by
  induction members with
  | nil => simpa [insert] using h
  | cons entry rest ih =>
    obtain ⟨first, old⟩ := entry
    simp only [insert] at h
    split at h
    · -- The old value of the key is gone.
      rcases List.mem_cons.mp h with heq | hrest
      · exact .inl (by simpa using heq)
      · exact .inr (List.mem_cons_of_mem _ hrest)
    · -- The first member stays. The new one is in front of it or behind it.
      split at h
      · rcases List.mem_cons.mp h with heq | hrest
        · exact .inl (by simpa using heq)
        · exact .inr hrest
      · rcases List.mem_cons.mp h with heq | hrest
        · exact .inr (heq ▸ List.mem_cons_self)
        · exact (ih hrest).imp id (List.mem_cons_of_mem _)

/-! ### Order -/

/-- Nothing is found under a key in front of all others. -/
theorem get?_eq_none_of_lt (h : ∀ entry ∈ members, key < entry.1) : get? key members = none := by
  induction members with
  | nil => rfl
  | cons entry rest ih =>
    obtain ⟨hfirst, hrest⟩ := List.forall_mem_cons.mp h
    have hne : entry.1 ≠ key := ne_of_gt hfirst
    simp only [get?, hne, if_false]
    exact ih hrest

/-- The keys are in increasing order, so that none is there twice. -/
def Increasing (members : Members) : Prop :=
  members.Pairwise fun entry next => entry.1 < next.1

instance : DecidablePred Increasing :=
  fun members => inferInstanceAs (Decidable (members.Pairwise fun entry next => entry.1 < next.1))

namespace Increasing

/-- Setting a key keeps the members in order. -/
theorem insert (increasing : members.Increasing) (key : String) (value : Json) :
    (members.insert key value).Increasing := by
  induction members with
  | nil => exact List.pairwise_singleton _ _
  | cons entry rest ih =>
    obtain ⟨other, found⟩ := entry
    obtain ⟨hfirst, hrest⟩ := List.pairwise_cons.mp increasing
    simp only [Members.insert]
    -- The key is that of the first member, or it is in front of it, or it goes further back.
    split
    · next heq =>
      subst heq
      exact List.pairwise_cons.mpr ⟨hfirst, hrest⟩
    · next hne =>
      split
      · next hlt =>
        refine List.pairwise_cons.mpr ⟨fun next hnext => ?_, increasing⟩
        rcases List.mem_cons.mp hnext with rfl | hnext
        · exact hlt
        · exact lt_trans hlt (hfirst next hnext)
      · next hle =>
        have hlt : other < key := lt_of_le_of_ne (not_lt.mp hle) hne
        refine List.pairwise_cons.mpr ⟨fun next hnext => ?_, ih hrest⟩
        -- What is behind the first member was there before or is the new one.
        rcases mem_insert hnext with ⟨heq, -⟩ | hnext
        · rw [heq]
          exact hlt
        · exact hfirst next hnext

/-- Members that are set one after another are in order, whatever the order of setting is. -/
theorem ofList (entries : List (String × Json)) : (Members.ofList entries).Increasing := by
  -- The entries are set one after another, so the induction is over what there is before.
  have hfold (members : Members) (increasing : members.Increasing) :
      (entries.foldl (fun members entry => members.insert entry.1 entry.2)
        members).Increasing := by
    induction entries generalizing members with
    | nil => exact increasing
    | cons entry rest ih => exact ih _ (increasing.insert entry.1 entry.2)
  exact hfold [] .nil

/-- A member is what is found under its key. -/
theorem get?_of_mem (increasing : members.Increasing) (h : (key, value) ∈ members) :
    get? key members = some value := by
  induction members with
  | nil => cases h
  | cons entry rest ih =>
    obtain ⟨hfirst, hrest⟩ := List.pairwise_cons.mp increasing
    rcases List.mem_cons.mp h with rfl | h
    · simp [get?]
    · have hne : entry.1 ≠ key := ne_of_lt (hfirst _ h)
      simp only [get?, hne, if_false]
      exact ih hrest h

/-- Two objects that find the same values are equal. -/
theorem ext (increasing : members.Increasing) (others' : others.Increasing)
    (h : ∀ key, get? key members = get? key others) : members = others := by
  induction members generalizing others with
  | nil =>
    cases others with
    | nil => rfl
    | cons entry rest => simpa [get?] using h entry.1
  | cons entry rest ih =>
    obtain ⟨hfirst, hrest⟩ := List.pairwise_cons.mp increasing
    cases others with
    | nil => simpa [get?] using h entry.1
    | cons entry' rest' =>
      obtain ⟨key, value⟩ := entry
      obtain ⟨key', value'⟩ := entry'
      obtain ⟨hfirst', hrest'⟩ := List.pairwise_cons.mp others'
      -- The smaller of the first keys would not be found in the other object.
      have hkey : key = key' := by
        rcases lt_trichotomy key key' with hlt | heq | hgt
        · have hnone : get? key ((key', value') :: rest') = none :=
            get?_eq_none_of_lt (List.forall_mem_cons.mpr
              ⟨hlt, fun entry hentry => lt_trans hlt (hfirst' entry hentry)⟩)
          rw [← h key] at hnone
          simp [get?] at hnone
        · exact heq
        · have hnone : get? key' ((key, value) :: rest) = none :=
            get?_eq_none_of_lt (List.forall_mem_cons.mpr
              ⟨hgt, fun entry hentry => lt_trans hgt (hfirst entry hentry)⟩)
          rw [h key'] at hnone
          simp [get?] at hnone
      subst hkey
      have hvalue : value = value' := by simpa [get?] using h key
      subst hvalue
      congr 1
      refine ih hrest hrest' fun name => ?_
      by_cases heq : key = name
      · subst heq
        rw [get?_eq_none_of_lt hfirst, get?_eq_none_of_lt hfirst']
      · simpa [get?, heq] using h name

end Increasing

/-- The members that a function keeps, each with the value that it gives. -/
def filterMap (keep : String → Json → Option Json) (members : Members) : Members :=
  List.filterMap (fun entry => (keep entry.1 entry.2).map fun kept => (entry.1, kept)) members

/-- Only the members that are there decide what is kept. -/
theorem filterMap_congr {keep keep' : String → Json → Option Json}
    (h : ∀ key value, (key, value) ∈ members → keep key value = keep' key value) :
    members.filterMap keep = members.filterMap keep' :=
  List.filterMap_congr fun entry hentry => by rw [h entry.1 entry.2 hentry]

/-- What is kept is in order, since it keeps its keys. -/
theorem Increasing.filterMap (increasing : members.Increasing)
    (keep : String → Json → Option Json) : (members.filterMap keep).Increasing := by
  refine List.pairwise_filterMap.mpr (increasing.imp ?_)
  intro entry next hlt kept hkept other hother
  obtain ⟨_, -, rfl⟩ := Option.map_eq_some_iff.mp hkept
  obtain ⟨_, -, rfl⟩ := Option.map_eq_some_iff.mp hother
  exact hlt

/-- Under a key stands what is kept of its value. -/
theorem Increasing.get?_filterMap (increasing : members.Increasing)
    (keep : String → Json → Option Json) (key : String) :
    get? key (members.filterMap keep) = (get? key members).bind (keep key) := by
  induction members with
  | nil => rfl
  | cons entry rest ih =>
    obtain ⟨other, found⟩ := entry
    obtain ⟨hfirst, hrest⟩ := List.pairwise_cons.mp increasing
    have ih := ih hrest
    unfold Members.filterMap at ih ⊢
    rw [List.filterMap_cons]
    by_cases heq : other = key
    · subst heq
      cases hkeep : keep other found with
      | some kept => simp [get?, hkeep]
      | none =>
        -- No later member has the key.
        rw [get?_eq_none_of_lt hfirst] at ih
        simp only [hkeep, Option.map_none, get?, if_true, Option.bind_some]
        exact ih
    · cases hkeep : keep other found with
      | some kept => simpa [get?, heq] using ih
      | none => simpa [get?, heq] using ih

end Members

namespace Json

mutual

/-- Whether the members of every object in a value are in order. -/
def isOrdered : Json → Bool
  | array items => isOrderedItems items
  | object members => decide (Members.Increasing members) && isOrderedMembers members
  | _ => true

/-- Whether it is so in every item. -/
def isOrderedItems : List Json → Bool
  | [] => true
  | item :: rest => item.isOrdered && isOrderedItems rest

/-- Whether it is so in the value of every member. -/
def isOrderedMembers : List (String × Json) → Bool
  | [] => true
  | (_, value) :: rest => value.isOrdered && isOrderedMembers rest

end

/-- An array is in order if each item is. -/
theorem isOrdered_array {items : List Json} :
    (array items).isOrdered = true ↔ ∀ item ∈ items, item.isOrdered = true := by
  rw [isOrdered]
  induction items with
  | nil => simp [isOrderedItems]
  | cons item rest ih => simp [isOrderedItems, ih]

/-- An object is in order if its keys increase and each value is in order. -/
theorem isOrdered_object {members : Members} :
    (object members).isOrdered = true ↔
      members.Increasing ∧ ∀ entry ∈ members, entry.2.isOrdered = true := by
  have heach : isOrderedMembers members = true ↔
      ∀ entry ∈ members, entry.2.isOrdered = true := by
    induction members with
    | nil => simp [isOrderedMembers]
    | cons entry rest ih => simp [isOrderedMembers, ih]
  rw [isOrdered, Bool.and_eq_true, decide_eq_true_iff, heach]

/-- What is collected member by member is in order. -/
theorem isOrdered_ofMembers {entries : List (String × Json)}
    (h : ∀ entry ∈ entries, entry.2.isOrdered = true) : (ofMembers entries).isOrdered = true := by
  refine isOrdered_object.mpr ⟨.ofList entries, ?_⟩
  -- Setting a member adds no value but the new one, so the fold keeps all values in order.
  have hfold (members : Members) (ordered : ∀ entry ∈ members, entry.2.isOrdered = true) :
      ∀ entry ∈ entries.foldl (fun members entry => members.insert entry.1 entry.2) members,
        entry.2.isOrdered = true := by
    induction entries generalizing members with
    | nil => exact ordered
    | cons first rest ih =>
      obtain ⟨hfirst, hrest⟩ := List.forall_mem_cons.mp h
      refine ih hrest _ fun entry hentry => ?_
      rcases Members.mem_insert hentry with ⟨-, heq⟩ | hentry
      · rw [heq]
        exact hfirst
      · exact ordered entry hentry
  exact hfold [] nofun

mutual

/-- A value that was written is in order. -/
theorem isOrdered_of_value? {value : Json} :
    ∀ written : Written, written.value? = some value → value.isOrdered = true
  | .null, h | .bool _, h | .number _, h => by
    cases h
    rfl
  | .text _, h => by
    obtain ⟨_, -, rfl⟩ := Option.map_eq_some_iff.mp h
    rfl
  | .array items, h => by
    obtain ⟨values, hvalues, rfl⟩ := Option.map_eq_some_iff.mp h
    exact isOrdered_array.mpr (isOrdered_of_items? items hvalues)
  -- Members may be written in any order. They are put in order one by one.
  | .object members, h => by
    obtain ⟨entries, hentries, rfl⟩ := Option.map_eq_some_iff.mp h
    exact isOrdered_ofMembers (isOrdered_of_members? members hentries)

/-- Items that are read are in order, one by one. -/
theorem isOrdered_of_items? {values : List Json} :
    ∀ items : List Written, Written.items? items = some values →
      ∀ value ∈ values, value.isOrdered = true
  | [], h => by
    cases h
    exact nofun
  | item :: rest, h => by
    obtain ⟨first, hfirst, h⟩ := Option.bind_eq_some_iff.mp h
    obtain ⟨others, hothers, h⟩ := Option.bind_eq_some_iff.mp h
    cases h
    exact List.forall_mem_cons.mpr
      ⟨isOrdered_of_value? item hfirst, isOrdered_of_items? rest hothers⟩

/-- Members that are read have values in order. -/
theorem isOrdered_of_members? {entries : List (String × Json)} :
    ∀ members : List (WrittenText × Written), Written.members? members = some entries →
      ∀ entry ∈ entries, entry.2.isOrdered = true
  | [], h => by
    cases h
    exact nofun
  | (_, item) :: rest, h => by
    obtain ⟨_, -, h⟩ := Option.bind_eq_some_iff.mp h
    obtain ⟨first, hfirst, h⟩ := Option.bind_eq_some_iff.mp h
    obtain ⟨others, hothers, h⟩ := Option.bind_eq_some_iff.mp h
    cases h
    exact List.forall_mem_cons.mpr
      ⟨isOrdered_of_value? item hfirst, isOrdered_of_members? rest hothers⟩

end

/-- Every value that is read from a text is in order. -/
theorem isOrdered_of_read? {source : String} {value : Json} (h : read? source = some value) :
    value.isOrdered = true := by
  obtain ⟨written, -, hvalue⟩ := Option.bind_eq_some_iff.mp h
  exact isOrdered_of_value? written hvalue

end Json

end DocShape
