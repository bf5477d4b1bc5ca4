import DocShape.Validator.Builder
import DocShape.Proofs.Session.Reading
import Mathlib.Data.Finset.Card
import Mathlib.Data.List.DropRight

/-!
# `DocShape.Proofs.Validator.Schemas`: schemas, however they are built

`OrderedMap.Lists` says what a map is after some entries came in: its names in the order in which
they came in first, each with the value that came in last. One insertion keeps this
(`OrderedMap.Lists.insert`), so it holds of every map of entries.

A schema can be filled entry by entry, from a list, or by a builder that is told the rules and
validators of fields one at a time. `Builder.schema_built_alike` says that this comes to the same.
For a builder, all calls before the last one that replaces the schema are without effect on it,
and those about the catalog and the settings as well (`Builder.schema_calls`).
-/

set_option autoImplicit false

namespace DocShape

namespace OrderedMap

variable {α : Type}

/-! ### One insertion -/

/-- Exchanging a value finds the old one and puts the new one in its place. -/
theorem exchange_eq (name : String) (value : α) (entries : List (String × α)) :
    exchange name value entries = (find? name entries, put name value entries) := by
  induction entries with
  | nil => rfl
  | cons entry rest ih =>
    obtain ⟨other, old⟩ := entry
    -- Found here, or the rest is searched and the entry in front is kept.
    by_cases h : other = name
    · simp [exchange, find?, put, h]
    · simp [exchange, find?, put, h, ih]

/-- To replace a value is to look it up and then to insert the new one. -/
theorem replace_eq (map : OrderedMap α) (name : String) (value : α) :
    map.replace name value = (map.get? name, map.insert name value) := by
  unfold replace
  rw [exchange_eq]
  rfl

/-- A name that is set is found with its value, and the others are found as before. -/
theorem get?_insert (map : OrderedMap α) (name other : String) (value : α) :
    (map.insert name value).get? other = if name = other then some value else map.get? other := by
  by_cases h : name = other
  · rw [if_pos h, ← h, get?_insert_self]
  · rw [if_neg h, get?_insert_of_ne map h]

/-! ### Maps and the entries that came in -/

/-- The map has the names of the entries in the order in which they came in first, each of them
once, with the value that came in last. -/
structure Lists (map : OrderedMap α) (entries : List (String × α)) : Prop where
  nodup : map.keys.Nodup
  mem_keys : ∀ name, name ∈ map.keys ↔ name ∈ entries.map Prod.fst
  order : map.keys.Pairwise fun earlier later =>
    (entries.map Prod.fst).idxOf earlier < (entries.map Prod.fst).idxOf later
  get?_eq : ∀ name, map.get? name = find? name entries.reverse
  size_eq : map.size = (entries.map Prod.fst).toFinset.card

namespace Lists

/-- The empty map lists no entries. -/
theorem empty : Lists (∅ : OrderedMap α) [] where
  nodup := .nil
  mem_keys _ := Iff.rfl
  order := .nil
  get?_eq _ := rfl
  size_eq := rfl

variable {map : OrderedMap α} {entries : List (String × α)}

/-- Places of names do not change when one more entry comes in. -/
theorem order_append (lists : map.Lists entries) (name : String) :
    map.keys.Pairwise fun earlier later =>
      (entries.map Prod.fst ++ [name]).idxOf earlier <
        (entries.map Prod.fst ++ [name]).idxOf later := by
  -- Both names came in before, so they are found before the new entry is looked at.
  refine lists.order.imp_of_mem fun hearlier hlater h => ?_
  rw [List.idxOf_append_of_mem ((lists.mem_keys _).mp hearlier),
    List.idxOf_append_of_mem ((lists.mem_keys _).mp hlater)]
  exact h

/-- One more entry keeps what is said of a map and its entries. -/
theorem insert (lists : map.Lists entries) (name : String) (value : α) :
    (map.insert name value).Lists (entries ++ [(name, value)]) := by
  have hnames : (entries ++ [(name, value)]).map Prod.fst = entries.map Prod.fst ++ [name] := by
    rw [List.map_append]
    rfl
  -- A name that is there keeps its place, and a new one comes last.
  have hkeys := map.keys_insert name value
  have hnodup : (map.insert name value).keys.Nodup := by
    rw [hkeys]
    split
    · exact lists.nodup
    · next hnew => exact List.nodup_append.mpr ⟨lists.nodup, List.nodup_singleton name,
        fun other hother last hlast heq => hnew (List.mem_singleton.mp hlast ▸ heq ▸ hother)⟩
  have hmem (other : String) : other ∈ (map.insert name value).keys ↔
      other ∈ (entries ++ [(name, value)]).map Prod.fst := by
    rw [hkeys, hnames, List.mem_append, ← lists.mem_keys]
    split
    · next hold =>
      refine ⟨.inl, fun h => h.elim id fun hlast => ?_⟩
      rw [List.mem_singleton.mp hlast]
      exact hold
    · exact List.mem_append
  refine ⟨hnodup, hmem, ?_, fun other => ?_, ?_⟩
  · rw [hkeys, hnames]
    split
    · exact lists.order_append name
    · next hnew =>
      -- A new name is behind all others, in the map and among the entries.
      refine List.pairwise_append.mpr ⟨lists.order_append name, List.pairwise_singleton .., ?_⟩
      intro earlier hearlier last hlast
      rw [lists.mem_keys] at hnew hearlier
      rw [List.mem_singleton.mp hlast, List.idxOf_append_of_mem hearlier,
        List.idxOf_append_of_notMem hnew]
      exact Nat.lt_add_right _ (List.idxOf_lt_length_of_mem hearlier)
  · rw [get?_insert, lists.get?_eq, List.reverse_append]
    rfl
  · have hsize : (map.insert name value).size = (map.insert name value).keys.length :=
      (List.length_map Prod.fst).symm
    -- The map has as many names as there are different ones among the entries.
    rw [hsize, ← List.toFinset_card_of_nodup hnodup]
    refine congrArg Finset.card (Finset.ext fun other => ?_)
    rw [List.mem_toFinset, List.mem_toFinset, hmem]

/-- Entries come in one after the other. -/
theorem insertAll (lists : map.Lists entries) (more : List (String × α)) :
    (map.insertAll more).Lists (entries ++ more) := by
  induction more generalizing map entries with
  | nil =>
    rw [List.append_nil]
    exact lists
  | cons entry rest ih =>
    have hrest := ih (lists.insert entry.1 entry.2)
    rw [List.append_assoc] at hrest
    exact hrest

/-- A map that is made of a list lists its entries. -/
theorem ofList (entries : List (String × α)) : (OrderedMap.ofList entries).Lists entries :=
  empty.insertAll entries

example : (OrderedMap.ofList [("b", 1), ("a", 2), ("b", 3)]).entries = [("b", 3), ("a", 2)] := by
  decide

end Lists

/-- Entries in two groups are inserted group by group. -/
theorem insertAll_append (map : OrderedMap α) (entries others : List (String × α)) :
    map.insertAll (entries ++ others) = (map.insertAll entries).insertAll others :=
  List.foldl_append

end OrderedMap

/-- What a name resolves to, from the entry that a schema has for it. -/
def Resolution.ofFound : Option Entry → Resolution
  | none => .default
  | some (.rule named) => .rule named
  | some (.nested validator) => .nested validator

/-- A name resolves to what is found under it. -/
theorem Schema.resolve_eq (schema : Schema) (name : String) :
    Schema.resolve schema name = .ofFound (schema.get? name) := by
  unfold resolve
  cases schema.get? name with
  | none => rfl
  | some entry => cases entry <;> rfl

namespace Builder

/-- A call of a builder that names what a field is looked at by. -/
inductive Naming where
  | rule (field : String) (rule : Rule)
  | nested (field : String) (validator : Validator)
  | entry (field : String) (entry : Entry)

/-- The field that is named, and its entry. -/
def Naming.pair : Naming → String × Entry
  | rule field named => (field, .rule named)
  | nested field validator => (field, .nested validator)
  | entry field named => (field, named)

/-- A call of a builder. -/
inductive Call where
  /-- Names the rule, the validator or the entry of a field. -/
  | name (naming : Naming)
  /-- Replaces all entries. -/
  | schema (schema : Schema)
  /-- Replaces the catalog. -/
  | catalog (catalog : Catalog)
  /-- Replaces the settings. -/
  | config (config : Config)

namespace Call

/-- The field that the call names, and its entry. -/
def pair? : Call → Option (String × Entry)
  | name naming => some naming.pair
  | _ => none

/-- The schema that the call brings. -/
def schema? : Call → Option Schema
  | schema brought => some brought
  | _ => none

/-- The schema of the last call that brings one, the empty one without such a call. -/
def lastSchema (calls : List Call) : Schema :=
  (calls.filterMap schema?).getLast?.getD ∅

/-- What is named behind the last call that brings a schema, or at all without such a call. -/
def pairsSince (calls : List Call) : List (String × Entry) :=
  (calls.rtakeWhile fun call => call.schema?.isNone).filterMap pair?

/-- One more call brings a schema, or leaves the last one as it was. -/
theorem lastSchema_concat (calls : List Call) (last : Call) :
    lastSchema (calls ++ [last]) = last.schema?.getD (lastSchema calls) := by
  unfold lastSchema
  rw [List.filterMap_append]
  cases h : last.schema? with
  | none =>
    rw [List.filterMap_cons_none h, List.filterMap_nil, List.append_nil]
    rfl
  | some brought =>
    rw [List.filterMap_cons_some h, List.filterMap_nil, List.getLast?_concat]
    rfl

/-- One more call names an entry, brings a schema and so starts anew, or does neither. -/
theorem pairsSince_concat (calls : List Call) (last : Call) :
    pairsSince (calls ++ [last]) =
      if last.schema?.isNone then pairsSince calls ++ last.pair?.toList else [] := by
  unfold pairsSince
  split
  · next h =>
    rw [List.rtakeWhile_concat_pos (fun call => call.schema?.isNone) calls last h,
      List.filterMap_append]
    cases last <;> rfl
  · next h =>
    rw [List.rtakeWhile_concat_neg (fun call => call.schema?.isNone) calls last h]
    rfl

end Call

/-- The builder after a call. -/
def call (builder : Builder) : Call → Builder
  | .name (.rule field rule) => builder.rule field rule
  | .name (.nested field validator) => builder.nested field validator
  | .name (.entry field entry) => builder.entry field entry
  | .schema schema => builder.step (.schema schema)
  | .catalog catalog => builder.step (.catalog catalog)
  | .config config => builder.step (.config config)

/-- The builder after calls in order. -/
def calls (builder : Builder) (calls : List Call) : Builder :=
  calls.foldl call builder

/-- Calls are made one after another. -/
theorem calls_concat (builder : Builder) (calls : List Call) (last : Call) :
    builder.calls (calls ++ [last]) = (builder.calls calls).call last :=
  List.foldl_append

/-- However a field is named, its entry comes into the schema. -/
theorem schema_call_name (builder : Builder) (naming : Naming) :
    (builder.call (.name naming)).schema =
      builder.schema.insert naming.pair.1 naming.pair.2 := by
  cases naming <;> rfl

/-- The schema of a builder has the entries named since it was replaced last. -/
theorem schema_calls (calls : List Call) :
    (Builder.calls {} calls).schema =
      (Call.lastSchema calls).insertAll (Call.pairsSince calls) := by
  -- Along the calls, the last one at a time.
  induction calls using List.reverseRecOn with
  | nil => rfl
  | append_singleton calls last ih =>
    rw [calls_concat, Call.lastSchema_concat, Call.pairsSince_concat]
    cases last with
    | name naming =>
      show _ = (Call.lastSchema calls).insertAll (Call.pairsSince calls ++ [naming.pair])
      rw [schema_call_name, ih, OrderedMap.insertAll_append]
      rfl
    | schema brought => rfl
    -- Of the catalog and of the settings the schema knows nothing.
    | catalog catalog =>
      show _ = (Call.lastSchema calls).insertAll (Call.pairsSince calls ++ [])
      rw [List.append_nil]
      exact ih
    | config config =>
      show _ = (Call.lastSchema calls).insertAll (Call.pairsSince calls ++ [])
      rw [List.append_nil]
      exact ih

/-- Without a call that brings a schema, there are the entries that are named. -/
theorem schema_calls_name (namings : List Naming) :
    (Builder.calls {} (namings.map Call.name)).schema = .ofList (namings.map Naming.pair) := by
  induction namings using List.reverseRecOn with
  | nil => rfl
  | append_singleton namings last ih =>
    rw [List.map_append, List.map_append]
    show (Builder.calls {} (namings.map Call.name ++ [.name last])).schema = _
    rw [calls_concat, schema_call_name, ih]
    exact (OrderedMap.insertAll_append ∅ (namings.map Naming.pair) [last.pair]).symm

/-- Building leaves the schema as it is. -/
theorem schema_build (builder : Builder) (store : Store) :
    (builder.build.answer store).schema = builder.schema := by
  unfold build
  cases builder.config.cache.enabled <;> rfl

/-- A schema is the same map in order of insertion, however its entries come in. It lists them, a
name resolves to its last entry, and setting an entry gives back the one that was found until
then. What a builder builds has the entries named behind the schema that it was given last. -/
theorem schema_built_alike (namings : List Naming) :
    let entries := namings.map Naming.pair
    let schema : Schema := .ofList entries
    entries.foldl (fun map entry => (map.replace entry.1 entry.2).2) ∅ = schema ∧
      entries.foldl (fun map entry => map.insert entry.1 entry.2) ∅ = schema ∧
      (Builder.calls {} (namings.map Call.name)).schema = schema ∧
      schema.Lists entries ∧
      (∀ name, Schema.resolve schema name =
        .ofFound (OrderedMap.find? name entries.reverse)) ∧
      (∀ (map : Schema) (name : String) (entry : Entry),
        (map.replace name entry).1 = map.get? name) ∧
      ∀ (calls : List Call) (store : Store),
        ((Builder.calls {} calls).build.answer store).schema =
          (Call.lastSchema calls).insertAll (Call.pairsSince calls) := by
  intro entries schema
  have hlists : schema.Lists entries := .ofList entries
  refine ⟨?_, rfl, schema_calls_name namings, hlists, fun name => ?_, ?_, ?_⟩
  · -- Setting entries one by one and dropping what was there is inserting them.
    simp only [OrderedMap.replace_eq]
    rfl
  · rw [← hlists.get?_eq, Schema.resolve_eq]
  · intro map name entry
    rw [OrderedMap.replace_eq]
  · intro calls store
    rw [schema_build, schema_calls]

end Builder

end DocShape
