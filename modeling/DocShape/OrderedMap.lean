/-!
# `DocShape.OrderedMap`: maps in order of insertion

A map from names to values that remembers the order in which its names first came in. Inserting
under a name that is there replaces the value and keeps the place.
-/

set_option autoImplicit false

namespace DocShape

/-- A map from names to values, in order of insertion. -/
structure OrderedMap (α : Type) where
  entries : List (String × α)

namespace OrderedMap

variable {α : Type}

instance : Inhabited (OrderedMap α) := ⟨⟨[]⟩⟩
instance : EmptyCollection (OrderedMap α) := ⟨⟨[]⟩⟩

/-- The value of a name. -/
def find? (name : String) : List (String × α) → Option α
  | [] => none
  | (other, value) :: rest => if other = name then some value else find? name rest

/-- Replaces the value of a name in its place, or adds the name at the end. -/
def put (name : String) (value : α) : List (String × α) → List (String × α)
  | [] => [(name, value)]
  | (other, old) :: rest =>
    if other = name then (name, value) :: rest else (other, old) :: put name value rest

/-- Like `put`, and gives the value that was there. -/
def exchange (name : String) (value : α) :
    List (String × α) → Option α × List (String × α)
  | [] => (none, [(name, value)])
  | (other, old) :: rest =>
    if other = name then (some old, (name, value) :: rest)
    else
      let (earlier, rest) := exchange name value rest
      (earlier, (other, old) :: rest)

/-- The value of a name. -/
def get? (map : OrderedMap α) (name : String) : Option α :=
  find? name map.entries

/-- Sets the value of a name. -/
def insert (map : OrderedMap α) (name : String) (value : α) : OrderedMap α :=
  ⟨put name value map.entries⟩

/-- Sets the value of a name and gives the value that was there. -/
def replace (map : OrderedMap α) (name : String) (value : α) : Option α × OrderedMap α :=
  let (earlier, entries) := exchange name value map.entries
  (earlier, ⟨entries⟩)

/-- The names, in order. -/
def keys (map : OrderedMap α) : List String :=
  map.entries.map Prod.fst

/-- The number of names. -/
def size (map : OrderedMap α) : Nat :=
  map.entries.length

/-- Whether there is no name. -/
def isEmpty (map : OrderedMap α) : Bool :=
  map.entries.isEmpty

/-- Inserts entries one by one. -/
def insertAll (map : OrderedMap α) (entries : List (String × α)) : OrderedMap α :=
  entries.foldl (fun map entry => map.insert entry.1 entry.2) map

/-- The map of the given entries. -/
def ofList (entries : List (String × α)) : OrderedMap α :=
  insertAll ∅ entries

/-- The empty map has no name. -/
@[simp] theorem get?_empty (name : String) : (∅ : OrderedMap α).get? name = none := rfl

/-- The empty map lists no name. -/
@[simp] theorem keys_empty : (∅ : OrderedMap α).keys = [] := rfl

/-- A name that is set is found with the value that it was set to. -/
@[simp] theorem get?_insert_self (map : OrderedMap α) (name : String) (value : α) :
    (map.insert name value).get? name = some value := by
  obtain ⟨entries⟩ := map
  simp only [get?, insert]
  induction entries with
  | nil => simp [put, find?]
  | cons entry rest ih =>
    obtain ⟨other, old⟩ := entry
    simp only [put]
    split
    · simp [find?]
    · next h => simp [find?, h, ih]

/-- Setting a name changes nothing about the others. -/
theorem get?_insert_of_ne (map : OrderedMap α) {name other : String} (h : name ≠ other)
    (value : α) : (map.insert name value).get? other = map.get? other := by
  obtain ⟨entries⟩ := map
  simp only [get?, insert]
  induction entries with
  | nil => simp [put, find?, h]
  | cons entry rest ih =>
    obtain ⟨third, old⟩ := entry
    simp only [put]
    split
    · next h' => subst h'; simp [find?, h]
    · simp [find?, ih]

/-- A name that is there keeps its place, and a new one comes last. -/
theorem keys_insert (map : OrderedMap α) (name : String) (value : α) :
    (map.insert name value).keys = if name ∈ map.keys then map.keys else map.keys ++ [name] := by
  obtain ⟨entries⟩ := map
  simp only [keys, insert]
  -- Along the entries: the name is found at the first one, further back or not at all.
  induction entries with
  | nil => simp [put]
  | cons entry rest ih =>
    obtain ⟨other, old⟩ := entry
    simp only [put]
    split
    · next h => subst h; simp
    · next h =>
      have h' : ¬name = other := fun e => h e.symm
      simp only [List.map_cons, List.mem_cons, h', false_or, ih]
      by_cases mem : name ∈ List.map Prod.fst rest <;> simp [mem]

/-- A name that no entry has is not found. -/
theorem find?_eq_none {name : String} {entries : List (String × α)}
    (h : name ∉ entries.map Prod.fst) : find? name entries = none := by
  induction entries with
  | nil => rfl
  | cons entry rest ih =>
    rw [List.map_cons, List.mem_cons, not_or] at h
    rw [find?, if_neg (Ne.symm h.1), ih h.2]

/-- If no name repeats, the value of a name does not depend on where its entry stands. -/
theorem find?_eq_of_perm {entries others : List (String × α)} (perm : entries.Perm others)
    (nodup : (entries.map Prod.fst).Nodup) (name : String) :
    find? name entries = find? name others := by
  induction perm with
  | nil => rfl
  | cons entry _ ih =>
    rw [find?, find?, ih (List.nodup_cons.mp nodup).2]
  | swap first second rest =>
    -- Only one of the two can have the name.
    have hne : second.1 ≠ first.1 := fun heq =>
      (List.nodup_cons.mp nodup).1 (heq ▸ List.mem_cons_self)
    simp only [find?]
    by_cases hsecond : second.1 = name
    · rw [if_pos hsecond, if_pos hsecond, if_neg fun hfirst => hne (hsecond.trans hfirst.symm)]
    · rw [if_neg hsecond, if_neg hsecond]
  | trans front _ ih ih' => rw [ih nodup, ih' ((front.map Prod.fst).nodup nodup)]

/-- What was inserted is found, and what was there before under other names. -/
theorem get?_insertAll (map : OrderedMap α) {entries : List (String × α)}
    (nodup : (entries.map Prod.fst).Nodup) (name : String) :
    (map.insertAll entries).get? name = (find? name entries).or (map.get? name) := by
  induction entries generalizing map with
  | nil => rfl
  | cons entry rest ih =>
    obtain ⟨hnew, hrest⟩ := List.nodup_cons.mp nodup
    show ((map.insert entry.1 entry.2).insertAll rest).get? name = _
    rw [ih (map.insert entry.1 entry.2) hrest, find?]
    by_cases hname : entry.1 = name
    -- No later entry has the name again, so what was set stays.
    · rw [if_pos hname, ← hname, find?_eq_none hnew, get?_insert_self]
      rfl
    · rw [if_neg hname, get?_insert_of_ne map hname]

/-- The order in which different names came in does not matter to what is found. -/
theorem get?_ofList_of_perm {entries others : List (String × α)} (perm : entries.Perm others)
    (nodup : (entries.map Prod.fst).Nodup) (name : String) :
    (ofList entries).get? name = (ofList others).get? name := by
  unfold ofList
  rw [get?_insertAll ∅ nodup, get?_insertAll ∅ ((perm.map Prod.fst).nodup nodup),
    find?_eq_of_perm perm nodup]

end OrderedMap

end DocShape
