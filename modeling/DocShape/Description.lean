import DocShape.Text.Quoted

/-!
# `DocShape.Description`: values described for a developer

A description is a tree of named records, tuples, maps and texts. It is written on one line, or on
a line for each part with four blanks for each level and a comma behind every part.
-/

set_option autoImplicit false

namespace DocShape

/-- The parts of a description. -/
inductive Description where
  /-- A word or a number as it is. -/
  | bare (word : String)
  /-- A text in quotes. -/
  | text (value : String)
  /-- Named parts behind the name of a type. -/
  | record (name : String) (parts : List (String × Description))
  /-- One part behind the name of a type. -/
  | wrapper (name : String) (part : Description)
  /-- Parts under keys. -/
  | map (parts : List (String × Description))

namespace Description

/-- A truth value. -/
def bool (value : Bool) : Description :=
  bare (if value then "true" else "false")

/-- A number. -/
def nat (value : Nat) : Description :=
  bare (toString value)

/-- A part that may be missing. -/
def optional : Option Description → Description
  | none => bare "None"
  | some part => wrapper "Some" part

mutual

/-- The description on one line. -/
def inline : Description → String
  | bare word => word
  | text value => quoted value
  | record name parts => name ++ " \x7b " ++ ", ".intercalate (inlineNamed parts) ++ " \x7d"
  | wrapper name part => name ++ "(" ++ part.inline ++ ")"
  | map parts => "\x7b" ++ ", ".intercalate (inlineKeyed parts) ++ "\x7d"

/-- Named parts on one line. -/
def inlineNamed : List (String × Description) → List String
  | [] => []
  | (name, part) :: rest => (name ++ ": " ++ part.inline) :: inlineNamed rest

/-- Keyed parts on one line. -/
def inlineKeyed : List (String × Description) → List String
  | [] => []
  | (key, part) :: rest => (quoted key ++ ": " ++ part.inline) :: inlineKeyed rest

end

/-- The blanks in front of a line. -/
def margin (level : Nat) : String :=
  String.ofList (List.replicate (4 * level) ' ')

/-- The line of one part. -/
def partLine (level : Nat) (part : String) : String :=
  margin (level + 1) ++ part ++ ",\n"

mutual

/-- The description with a line for each part. Its own first line is not set in. -/
def indented (level : Nat) : Description → String
  | bare word => word
  | text value => quoted value
  | record name parts =>
    name ++ " \x7b\n" ++ String.join (linesNamed level parts) ++ margin level ++ "\x7d"
  | wrapper name part =>
    name ++ "(\n" ++ partLine level (part.indented (level + 1)) ++ margin level ++ ")"
  | map [] => "\x7b\x7d"
  | map parts => "\x7b\n" ++ String.join (linesKeyed level parts) ++ margin level ++ "\x7d"

/-- Lines of named parts. -/
def linesNamed (level : Nat) : List (String × Description) → List String
  | [] => []
  | (name, part) :: rest =>
    partLine level (name ++ ": " ++ part.indented (level + 1)) :: linesNamed level rest

/-- Lines of keyed parts. -/
def linesKeyed (level : Nat) : List (String × Description) → List String
  | [] => []
  | (key, part) :: rest =>
    partLine level (quoted key ++ ": " ++ part.indented (level + 1)) :: linesKeyed level rest

end

end Description

end DocShape
