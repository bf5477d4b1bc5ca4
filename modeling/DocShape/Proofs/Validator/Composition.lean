import DocShape.Proofs.Shape.RoundTrip
import DocShape.Proofs.Validator.Positions
import DocShape.Proofs.Validator.Repeats

/-!
# `DocShape.Proofs.Validator.Composition`: validation is compositional

The outcome of a document is put together from the outcomes of its parts.
`exists_part_at_pointer` says where each part is: at the pointer of its path, in the tree of
errors as it is, and in the tree of what passed up to the null that an item without anything
leaves in its slot. The part is what the validator in charge answers for the value alone, from any
store.

Messages have to be fixed for that, since a numbered catalog would give the part other messages
than the whole. A setter may write what passed under any name, so that tree is only spoken of
without setters.
-/

set_option autoImplicit false

namespace DocShape

/-- What is used at the end of a path is used at its start. -/
theorem Position.uses_of_at? {position last : Position} {path : FieldPath}
    (hpath : position.at? path = some last) {other : Validator}
    (uses : last.scope.Uses other) : position.scope.Uses other :=
  @holds_of_at? (fun last => last.scope.Uses other → position.scope.Uses other)
    (fun inside h uses => h (inside.uses uses)) _ _ _ hpath id uses

namespace Validator

/-- The part of an outcome at the pointer of a path is what the validator in charge there answers
for the value there. -/
theorem exists_part_at_pointer {validator : Validator} {source : String} {limit : Nat}
    {shape : Shape} {document : Json} {store : Store} {outcome : Outcome} {path : FieldPath}
    {position : Position} (fixed : validator.FixedMessages)
    (parsed : Shape.parse source limit = .ok shape)
    (answered : (validator.validateShape shape document).answer store = .ok outcome)
    (reached : Position.at? ⟨validator, shape, document⟩ path = some position) :
    ∃ part,
      (∀ other, (position.scope.validateShape position.shape position.value).answer other =
        .ok part) ∧
      outcome.errorAt? path.pointer.text = part.errors ∧
      ((∀ other, validator.Uses other → other.SetterFree) →
        outcome.validAt? path.pointer.text = part.slot path.getLast?) := by
  have distinct := (Shape.wellFormed_of_parse parsed).1.distinct
  obtain ⟨part, hpart, herrors, hvalid⟩ :=
    Position.exists_part reached distinct (gives_of_answer answered)
  -- The validator in charge at the position is used, so its messages are fixed as well.
  have fixedThere : position.scope.FixedMessages := fun other uses =>
    fixed other (Position.uses_of_at? reached uses)
  refine ⟨part, fun other => answer_of_gives fixedThere hpart other, ?_, fun free => ?_⟩
  · unfold Outcome.errorAt?
    simp only [Json.atPointer?_text]
    exact herrors
  · unfold Outcome.validAt?
    simp only [Json.atPointer?_text]
    exact hvalid free

/-- A validator without schema that has one message. -/
def saying (message : String) : Validator :=
  { (default : Validator) with catalog := .fixed message }

/-- A property of the validator and of the one that its only entry names is one of all that is
used. -/
theorem forall_uses_of_single {name message : String} {property : Validator → Prop}
    (hself : property { (default : Validator) with
      schema := .ofList [(name, .nested (saying message))] })
    (hinner : property (saying message)) :
    ∀ other, Uses { (default : Validator) with
      schema := .ofList [(name, .nested (saying message))] } other → property other := by
  refine forall_uses_iff.mpr ⟨hself, fun key inner entry => ?_⟩
  have hentry : (if name = key then some (Entry.nested (saying message)) else none) =
      some (.nested inner) := entry
  split at hentry
  · cases hentry
    refine forall_uses_iff.mpr ⟨hinner, fun key inner entry => ?_⟩
    cases entry
  · cases hentry

/-- A value of the wrong kind below two names that pointers escape. Its error is in the words of
the nested validator. -/
theorem exists_part_at_escaped_pointer :
    let owner : Validator :=
      { (default : Validator) with schema := .ofList [("in/out", .nested (saying "a list"))] }
    let shape : Shape :=
      .object [.nested "in/out" (.arrayOf (.object [.nested "~tags" .emptyArray]))]
    let document : Json := .object [("in/out", .array [
      .object [("~tags", .array [])], .object [("~tags", .string "red")]])]
    let outcome : Outcome :=
      ⟨some (.object [("in/out", .array [.object [("~tags", .array [])], .object []])]),
        some (.object [("in/out", .array [.null, .object [("~tags", .string "a list")]])])⟩
    let path : FieldPath := [.field "in/out", .index 1, .field "~tags"]
    let position : Position := ⟨saying "a list", .emptyArray, .string "red"⟩
    owner.FixedMessages ∧ (∀ other, owner.Uses other → other.SetterFree) ∧
      Shape.parse "{in/out[{~tags[]}]}" 5 = .ok shape ∧
      (owner.validateShape shape document).answer {} = .ok outcome ∧
      Position.at? ⟨owner, shape, document⟩ path = some position ∧
      path.pointer.text = "/in~1out/1/~0tags" ∧
      ∃ part,
        (∀ other, (position.scope.validateShape position.shape position.value).answer other =
          .ok part) ∧
        outcome.errorAt? path.pointer.text = part.errors ∧
        outcome.validAt? path.pointer.text = part.slot path.getLast? := by
  intro owner shape document outcome path position
  -- Two validators are used, the owner and the nested one, and both have a fixed message.
  have fixed : owner.FixedMessages :=
    forall_uses_of_single ⟨_, fun _ => rfl⟩ ⟨_, fun _ => rfl⟩
  have free : ∀ other, owner.Uses other → other.SetterFree := by
    refine forall_uses_of_single (fun name rule entry => ?_) fun name rule entry => ?_
    · have hentry : (if "in/out" = name then some (Entry.nested (saying "a list")) else none) =
        some (.rule rule) := entry
      split at hentry <;> cases hentry
    · cases entry
  have parsed : Shape.parse "{in/out[{~tags[]}]}" 5 = .ok shape := by rfl
  have answered : (owner.validateShape shape document).answer {} = .ok outcome := by rfl
  have reached : Position.at? ⟨owner, shape, document⟩ path = some position := by rfl
  obtain ⟨part, hpart, herrors, hvalid⟩ :=
    exists_part_at_pointer fixed parsed answered reached
  exact ⟨fixed, free, parsed, answered, reached, by rfl, part, hpart, herrors, hvalid free⟩

end Validator

end DocShape
