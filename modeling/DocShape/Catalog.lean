/-!
# `DocShape.Catalog`: the messages of missing values

A catalog gives the message for a value that is required and not there. The message is fixed, or
it is the next one of a numbered sequence. Where a sequence stands is kept in a counter outside
the catalog, so that copies of a catalog go on together.
-/

set_option autoImplicit false

namespace DocShape

/-- Names a counter. -/
abbrev CounterId := Nat

/-- How often each counter was used. -/
abbrev Counters := CounterId → Nat

/-- Moves one counter on. -/
def Counters.advance (counters : Counters) (id : CounterId) : Counters := fun other =>
  if other = id then counters id + 1 else counters other

/-- Where the messages of missing values come from. -/
inductive Catalog where
  /-- Always the same message. -/
  | fixed (message : String)
  /-- The message of the turn that the counter shows, from 0 on. Each use moves the counter on. -/
  | numbered (messages : Nat → String) (counter : CounterId)

namespace Catalog

/-- The message of a catalog that nobody chose. -/
def defaultMessage : String := "This information is required"

instance : Inhabited Catalog := ⟨.fixed defaultMessage⟩

/-- The message that is due. -/
def message (counters : Counters) : Catalog → String
  | fixed message => message
  | numbered messages counter => messages (counters counter)

/-- The counters after one message. -/
def advance (counters : Counters) : Catalog → Counters
  | fixed _ => counters
  | numbered _ counter => counters.advance counter

/-- Messages made of a text and the number of their turn. -/
def counting (text : String) (turn : Nat) : String :=
  text ++ toString turn

end Catalog

end DocShape
