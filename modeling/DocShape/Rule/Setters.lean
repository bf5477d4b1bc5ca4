import DocShape.Rule.Checks

/-!
# `DocShape.Rule.Setters`: ready-made setters
-/

set_option autoImplicit false

namespace DocShape

namespace Setter

/-- Keeps a fixed value under the name of the field. -/
def const (value : Json) : Setter := fun field =>
  Members.insert field.name value

/-- Keeps a text made from the value. -/
def format (template : String) : Setter := fun field =>
  Members.insert field.name (.string (fillTemplate template field.value))

/-- Keeps the value under another key. -/
def rename (key : String) : Setter := fun field =>
  Members.insert key field.value

/-- Removes a key. -/
def remove (key : String) : Setter := fun _ =>
  Members.erase key

/-- Collects values in an array under a key. What stands there and is no array is replaced. -/
def push (key : String) : Setter := fun field valid =>
  let earlier := match Members.get? key valid with
    | some (.array items) => items
    | _ => []
  Members.insert key (.array (earlier ++ [field.value])) valid

/-- Keeps the list of the keys that are there. -/
def keys : Setter := fun field valid =>
  Members.insert field.name (.array ((Members.keys valid).map .string)) valid

/-- Keeps the name of the field. -/
def name : Setter := fun field =>
  Members.insert field.name (.string field.name)

/-- Removes every key. -/
def clear : Setter := fun _ _ => []

/-- Changes nothing. -/
def skip : Setter := fun _ valid => valid

/-- Runs setters in order. -/
def seq (setters : List Setter) : Setter := fun field valid =>
  setters.foldl (fun valid set => set field valid) valid

end Setter

end DocShape
