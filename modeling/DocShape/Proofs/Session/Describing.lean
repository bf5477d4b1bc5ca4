import DocShape.Validator.Describe
import DocShape.Proofs.Session.Reading

/-!
# `DocShape.Proofs.Session.Describing`: what a description asks for

The description of a validator shows the catalog of the validator and those of all validators in
its schema, and asks each of them for its next message. `Validator.shown` lists these catalogs in
the order in which they are asked, the nested ones first. `Validator.after_describe`: to describe
a validator is to ask these catalogs, each one once, and to do nothing else.
-/

set_option autoImplicit false

namespace DocShape

mutual

/-- The catalogs that the description of an entry shows. -/
def Entry.shown : Entry → List Catalog
  | .rule _ => []
  | .nested validator => validator.shown

/-- The catalogs that the descriptions of entries show, in order. -/
def Entry.allShown : List (String × Entry) → List Catalog
  | [] => []
  | (_, entry) :: rest => entry.shown ++ Entry.allShown rest

/-- The catalogs that the description of a validator shows. -/
def Validator.shown : Validator → List Catalog
  | ⟨⟨entries⟩, catalog, _, _⟩ => Entry.allShown entries ++ [catalog]

end

/-- The catalogs that the description of a builder shows. -/
def Builder.shown (builder : Builder) : List Catalog :=
  Entry.allShown builder.schema.entries ++ [builder.catalog]

/-- The store once some catalogs were asked for a message, in order. -/
def Store.asked (store : Store) (catalogs : List Catalog) : Store :=
  catalogs.foldl (fun store catalog => catalog.required.after store) store

namespace Store

/-- Catalogs in two groups are asked group by group. -/
theorem asked_append (store : Store) (catalogs others : List Catalog) :
    store.asked (catalogs ++ others) = (store.asked catalogs).asked others :=
  List.foldl_append

/-- What catalogs are asked for is not kept in caches. -/
theorem asked_eq (store : Store) (catalogs : List Catalog) :
    (store.asked catalogs).contents = store.contents ∧
      (store.asked catalogs).readings = store.readings ∧
      (store.asked catalogs).nextCounter = store.nextCounter ∧
      (store.asked catalogs).nextCache = store.nextCache := by
  induction catalogs generalizing store with
  | nil => exact ⟨rfl, rfl, rfl, rfl⟩
  | cons catalog rest ih => exact ih (catalog.required.after store)

end Store

mutual

/-- To describe an entry is to ask the catalogs that it shows. A rule shows none. -/
theorem Entry.after_describe (entry : Entry) (store : Store) :
    entry.describe.after store = store.asked entry.shown := by
  match entry with
  | .rule rule => rfl
  | .nested validator => exact validator.after_describe store

/-- Entries are described in order, each in the store that the one before it leaves. -/
theorem Entry.after_describeAll (entries : List (String × Entry)) (store : Store) :
    (Entry.describeAll entries).after store = store.asked (Entry.allShown entries) := by
  match entries with
  | [] => rfl
  | (field, entry) :: rest =>
    rw [Entry.allShown, Store.asked_append, ← entry.after_describe store]
    exact Entry.after_describeAll rest (entry.describe.after store)

/-- To describe a validator is to ask the catalogs that are shown. -/
theorem Validator.after_describe (validator : Validator) (store : Store) :
    validator.describe.after store = store.asked validator.shown := by
  match validator with
  | ⟨⟨entries⟩, catalog, cache, maxDepth⟩ =>
    -- The entries come first and the catalog next; a cache asks for nothing.
    rw [Validator.shown, Store.asked_append, ← Entry.after_describeAll entries store]
    rfl

end

/-- So it is to describe a schema. -/
theorem Schema.after_describe (schema : Schema) (store : Store) :
    (Schema.describe schema).after store = store.asked (Entry.allShown schema.entries) := by
  rw [← Entry.after_describeAll schema.entries store]
  rfl

/-- And so it is to describe a builder. -/
theorem Builder.after_describe (builder : Builder) (store : Store) :
    builder.describe.after store = store.asked builder.shown := by
  rw [Builder.shown, Store.asked_append, ← Entry.after_describeAll builder.schema.entries store]
  rfl

end DocShape
