import DocShape.Proofs.Shape.Cursors
import DocShape.Proofs.Shape.Whitespace

/-!
# `DocShape.Proofs.Shape.Rests`: what is made of the rest of a text

Wherever a descent is, the rest of the text is still to come. `conclude` is what the reader ends
with if it is in some state there. It is the same behind white space (`conclude_skip`), inside a
name (`conclude_name`) and behind a field that is only a name (`conclude_leaf`), with the state
that the reader has come to there.

`Agrees` says of a part of a descent that it ends as the reader does. If it gives something, the
reader goes on with that from the place where the part ends. Meanwhile the characters that are
passed pay for the calls and the turns (`Stands`), so neither can be more than the text is long.
-/

set_option autoImplicit false

namespace DocShape

namespace Shape.Descent

open Grammar Reader

/-! ### What the reader makes of the rest -/

/-- What the reader ends with if it is in a state with the rest of a text to come. -/
def conclude (limit : Nat) (state : State) (position : Nat) (back : List Char) :
    Except SyntaxError Shape :=
  state.run limit (locate position back) >>= State.finish

/-- What it ends with if a shape inside some frames has just been read. -/
def concludeShape (limit : Nat) (frames : List Frame) (shape : Shape) (position : Nat)
    (back : List Char) : Except SyntaxError Shape :=
  complete shape frames >>= fun next => conclude limit next position back

/-- What it ends with if a field that begins at `start` has just been read behind others. -/
def concludeField (limit opened : Nat) (fields : List Field) (start : Nat) (frames : List Frame)
    (field : Field) (position : Nat) (back : List Char) : Except SyntaxError Shape :=
  addField fields field start >>= fun fields' =>
    conclude limit (.inside (.fieldEnd opened fields') frames) position back

section

variable {limit : Nat} {state : State} {frames : List Frame} {opened start : Nat}
  {fields : List Field}

/-- At the end of the text the state decides. -/
theorem conclude_nil (position : Nat) : conclude limit state position [] = state.finish :=
  rfl

/-- Otherwise the reader takes a step and goes on from there. -/
theorem conclude_cons (position : Nat) (c : Char) (back : List Char) :
    conclude limit state position (c :: back) = state.step limit position c >>= fun next =>
      conclude limit next (position + c.utf8Size) back := by
  unfold conclude
  rw [locate, State.run, bind_assoc]

/-- A step that goes on moves the rest by a character. -/
theorem conclude_of_step {next : State} {position : Nat} {c : Char}
    (h : state.step limit position c = .ok next) (back : List Char) :
    conclude limit state position (c :: back) =
      conclude limit next (position + c.utf8Size) back := by
  rw [conclude_cons, h]
  rfl

/-- What stands behind a character that is refused does not matter. -/
theorem conclude_of_refused {position : Nat} {c : Char} {error : SyntaxError}
    (h : state.step limit position c = .error error) (back : List Char) :
    conclude limit state position (c :: back) = .error error := by
  rw [conclude_cons, h]
  rfl

/-- A shape inside a field is read when the field is. -/
theorem concludeShape_field (name : String) :
    concludeShape limit (.field opened fields start name :: frames) = fun shape =>
      concludeField limit opened fields start frames (.nested name shape) := by
  funext shape position back
  simp only [concludeShape, complete, bind_assoc]
  rfl

/-- White space outside of names says nothing. -/
theorem conclude_skip (outside : state.OutsideNames) (position : Nat) (back : List Char) :
    conclude limit state position back =
      conclude limit state (position + textSize (back.takeWhile isBlank))
        (back.dropWhile isBlank) := by
  -- Along the rest of the text. The state stays the same, only the position moves.
  induction back generalizing position with
  | nil => rfl
  | cons c back ih =>
    by_cases hc : isBlank c = true
    · rw [List.takeWhile_cons_of_pos hc, List.dropWhile_cons_of_pos hc, textSize, ← Nat.add_assoc,
        ← ih]
      exact conclude_of_step (outside.step_of_blank limit position hc) back
    · rw [List.takeWhile_cons_of_neg hc, List.dropWhile_cons_of_neg hc]
      rfl

/-- The letters of a name are collected. -/
theorem conclude_letters {cs : List Char} (plain : ∀ c ∈ cs, isDelimiter c = false)
    (letters : List Char) (position : Nat) (rest : List Char) :
    conclude limit (.inside (.fieldName opened fields start letters) frames) position
        (cs ++ rest) =
      conclude limit (.inside (.fieldName opened fields start (cs.reverse ++ letters)) frames)
        (position + textSize cs) rest := by
  -- Along the letters that are still to come. Those read so far are kept backwards.
  induction cs generalizing letters position with
  | nil => rfl
  | cons c cs ih =>
    obtain ⟨hc, hcs⟩ := List.forall_mem_cons.mp plain
    have hstep : (State.inside (.fieldName opened fields start letters) frames).step limit
        position c = .ok (.inside (.fieldName opened fields start (c :: letters)) frames) := by
      simp [State.step, Place.step, hc]
    rw [List.cons_append, conclude_of_step hstep, ih hcs, textSize, ← Nat.add_assoc]
    simp

/-- A name begins at its first letter that is not blank. -/
theorem conclude_name {c : Char} {cs : List Char} (solid : isBlank c = false)
    (plain : ∀ d ∈ c :: cs, isDelimiter d = false) (position : Nat) (rest : List Char) :
    conclude limit (.inside (.fieldStart opened fields) frames) position (c :: cs ++ rest) =
      conclude limit (.inside (.fieldName opened fields position (c :: cs).reverse) frames)
        (position + textSize (c :: cs)) rest := by
  obtain ⟨hc, hcs⟩ := List.forall_mem_cons.mp plain
  -- A letter is no delimiter, so it does not close the object before its first field either.
  have hclose : c ≠ Bracket.brace.closing := by
    rintro rfl
    cases hc
  have hstep : (State.inside (.fieldStart opened fields) frames).step limit position c =
      .ok (.inside (.fieldName opened fields position [c]) frames) := by
    simp [State.step, Place.step, solid, hc, hclose]
  rw [List.cons_append, conclude_of_step hstep, conclude_letters hcs, List.reverse_cons, textSize,
    Nat.add_assoc]

/-- The name that is read is the trimmed text. -/
theorem nameOf_reverse {c : Char} (solid : isBlank c = false) (cs : List Char) :
    nameOf (c :: cs).reverse = String.ofList (trim (c :: cs)) := by
  rw [trim_cons_of_solid solid]
  rfl

/-- A name with no shape behind it is a field, which ends in front of the next delimiter. -/
theorem conclude_leaf {letters back : List Char}
    (ends : ∀ c, back.head? = some c → isDelimiter c = true ∧ Bracket.ofOpening? c = none)
    (position : Nat) :
    conclude limit (.inside (.fieldName opened fields start letters) frames) position back =
      concludeField limit opened fields start frames (.leaf (nameOf letters)) position back := by
  unfold concludeField
  -- The reader learns from the delimiter that the name is over, the descent stops in front of it.
  cases back with
  | nil =>
    simp only [conclude_nil, State.finish, Place.finish]
    cases addField fields (.leaf (nameOf letters)) start <;> rfl
  | cons c back =>
    obtain ⟨hdelimiter, hother⟩ := ends c rfl
    have hsolid := isBlank_of_isDelimiter hdelimiter
    simp only [conclude_cons, State.step, Place.step, hdelimiter, hother, hsolid, if_true,
      Bool.false_eq_true, if_false, bind_assoc]

end

/-! ### What a descent has to spend -/

/-- An opening bracket stands at the position. -/
def OpensAt (text : List Char) (position : Nat) : Prop :=
  ∃ b : Bracket, ∃ back, LeftAt text position (b.opening :: back)

/-- No more shapes were called for and no more turns taken than so many, and each shape was called
for at an opening bracket. -/
structure Counted (text : List Char) (calls turns : Nat) (scan : Scan) : Prop where
  calls : scan.calls.length ≤ calls
  turns : scan.turns ≤ turns
  openings : ∀ position ∈ scan.calls, OpensAt text position

/-- What is left of the text suffices for one more call and one more turn at each character. -/
structure Stands (text : List Char) (calls turns : Nat) (scan : Scan) (back : List Char) :
    Prop where
  left : LeftAt text scan.cursor.position back
  calls : scan.calls.length + back.length ≤ calls
  turns : scan.turns + back.length ≤ turns
  openings : ∀ position ∈ scan.calls, OpensAt text position

/-- Only the cursor moved, by a number of bytes. -/
structure Shifted (size : Nat) (before after : Scan) : Prop where
  cursor : after.cursor = before.cursor.goto (before.cursor.position + size)
  calls : after.calls = before.calls
  turns : after.turns = before.turns

namespace Shifted

/-- A cursor that stays is shifted by nothing. -/
theorem refl (scan : Scan) : Shifted 0 scan scan :=
  ⟨rfl, rfl, rfl⟩

/-- Passing a character shifts the cursor by its bytes. -/
theorem pass (scan : Scan) (c : Char) : Shifted c.utf8Size scan (scan.pass c) :=
  ⟨rfl, rfl, rfl⟩

/-- Two shifts in a row add up. -/
theorem trans {size size' : Nat} {before middle after : Scan} (front : Shifted size before middle)
    (back : Shifted size' middle after) : Shifted (size + size') before after := by
  refine ⟨?_, back.calls.trans front.calls, back.turns.trans front.turns⟩
  rw [back.cursor, front.cursor, ← Nat.add_assoc]
  rfl

end Shifted

namespace Stands

variable {text back : List Char} {calls turns : Nat} {scan after : Scan}

/-- What was spent so far fits what there is to spend. -/
theorem counted (stands : Stands text calls turns scan back) : Counted text calls turns scan :=
  ⟨Nat.le_trans (Nat.le_add_right ..) stands.calls,
    Nat.le_trans (Nat.le_add_right ..) stands.turns, stands.openings⟩

/-- Each character that is passed pays for a call and for a turn. -/
theorem across (part : List Char) {calls' turns' : Nat}
    (stands : Stands text calls turns scan (part ++ back))
    (shifted : Shifted (textSize part) scan after) (hcalls : calls ≤ calls' + part.length)
    (hturns : turns ≤ turns' + part.length) : Stands text calls' turns' after back := by
  have hbefore := stands.calls
  have hbefore' := stands.turns
  rw [List.length_append] at hbefore hbefore'
  refine ⟨?_, ?_, ?_, ?_⟩
  · rw [shifted.cursor]
    exact stands.left.across part
  · rw [shifted.calls]
    omega
  · rw [shifted.turns]
    omega
  · rw [shifted.calls]
    exact stands.openings

/-- A character that is passed pays for a call and for a turn. -/
theorem pass {c : Char} {calls' turns' : Nat} (stands : Stands text calls turns scan (c :: back))
    (hcalls : calls ≤ calls' + 1) (hturns : turns ≤ turns' + 1) :
    Stands text calls' turns' (scan.pass c) back :=
  stands.across [c] (.pass scan c) hcalls hturns

/-- A shape may be called for at an opening bracket, before the bracket pays for it. -/
theorem call {b : Bracket} (stands : Stands text calls turns scan (b.opening :: back)) :
    Stands text (calls + 1) turns scan.call (b.opening :: back) := by
  have hcalls : (scan.calls ++ [scan.cursor.position]).length = scan.calls.length + 1 :=
    List.length_append
  -- The call is counted before its bracket is passed, so for a moment there is one more to spend.
  refine ⟨stands.left, ?_, stands.turns, ?_⟩
  · show (scan.calls ++ [scan.cursor.position]).length + _ ≤ _
    rw [hcalls, Nat.add_right_comm]
    exact Nat.succ_le_succ stands.calls
  · intro position hposition
    rcases List.mem_append.mp hposition with hbefore | hnew
    · exact stands.openings position hbefore
    · rw [List.mem_singleton.mp hnew]
      exact ⟨b, back, stands.left⟩

/-- A turn may be taken before a character pays for it. -/
theorem turn (stands : Stands text calls turns scan back) :
    Stands text calls (turns + 1) scan.turn back := by
  refine ⟨stands.left, stands.calls, ?_, stands.openings⟩
  show scan.turns + 1 + back.length ≤ turns + 1
  rw [Nat.add_right_comm]
  exact Nat.succ_le_succ stands.turns

end Stands

/-- A part of a descent ends as the reader does. If it gives something, the reader goes on with
that, as many containers are open as before, and no more of the text is left. -/
inductive Agrees {α : Type} (text : List Char) (calls turns depth size : Nat)
    (goal : Except SyntaxError Shape) (next : α → Nat → List Char → Except SyntaxError Shape) :
    EStateM.Result Halt Scan α → Prop where
  | ok {found : α} {after : Scan} {rest : List Char} (stands : Stands text calls turns after rest)
    (level : after.cursor.depth = depth) (shorter : rest.length ≤ size)
    (same : goal = next found after.cursor.position rest) :
    Agrees text calls turns depth size goal next (.ok found after)
  | fault {error : SyntaxError} {after : Scan} (counted : Counted text calls turns after)
    (same : goal = .error error) :
    Agrees text calls turns depth size goal next (.error (.fault error) after)

namespace Agrees

variable {α β : Type} {text : List Char} {calls turns depth size : Nat}
  {goal : Except SyntaxError Shape}

/-- Parts in a row agree with the reader if each of them does. -/
theorem bind {middle : α → Nat → List Char → Except SyntaxError Shape}
    {next : β → Nat → List Char → Except SyntaxError Shape} {part : Descending α}
    {then' : α → Descending β} {before : Scan}
    (agrees : Agrees text calls turns depth size goal middle (part.run before))
    (h : ∀ found mid rest, Stands text calls turns mid rest → mid.cursor.depth = depth →
      rest.length ≤ size → Agrees text calls turns depth size
        (middle found mid.cursor.position rest) next ((then' found).run mid)) :
    Agrees text calls turns depth size goal next ((part >>= then').run before) := by
  rw [EStateM.run_bind]
  generalize part.run before = result at agrees ⊢
  -- A fault of the first part is the fault of the whole, on both sides.
  cases agrees with
  | fault counted same => exact .fault counted same
  | ok stands level shorter same =>
    rw [same]
    exact h _ _ _ stands level shorter

/-- A part that leaves little leaves no more than that. -/
theorem wider {next : α → Nat → List Char → Except SyntaxError Shape}
    {result : EStateM.Result Halt Scan α} {size' : Nat}
    (agrees : Agrees text calls turns depth size goal next result) (le : size ≤ size') :
    Agrees text calls turns depth size' goal next result := by
  cases agrees with
  | ok stands level shorter same => exact .ok stands level (Nat.le_trans shorter le) same
  | fault counted same => exact .fault counted same

/-- A part that stops with the fault of the reader agrees with it. -/
theorem fail {next : α → Nat → List Char → Except SyntaxError Shape} {scan : Scan}
    {back : List Char} {error : SyntaxError} (stands : Stands text calls turns scan back)
    (same : goal = .error error) :
    Agrees text calls turns depth size goal next ((Descent.fail error : Descending α).run scan) :=
  .fault stands.counted same

/-- Making something of a result reads nothing. -/
theorem give {next : β → Nat → List Char → Except SyntaxError Shape} {part : Descending α}
    {make : α → β} {before : Scan}
    (agrees : Agrees text calls turns depth size goal (fun found => next (make found))
      (part.run before)) :
    Agrees text calls turns depth size goal next
      ((part >>= fun found => pure (make found)).run before) :=
  agrees.bind fun _ _ _ stands level shorter => .ok stands level shorter rfl

end Agrees

/-! ### Going on in the text -/

section

variable {text back : List Char} {scan : Scan}

/-- Characters with a property are passed by if there are turns enough. -/
theorem exists_skipWhile (left : LeftAt text scan.cursor.position back) (property : Char → Bool)
    {budget : Nat} (fits : back.length ≤ budget) :
    ∃ after, (skipWhile text property budget).run scan = .ok () after ∧
      Shifted (textSize (back.takeWhile property)) scan after := by
  -- On the turns that are left. Without any there is nothing left to pass either.
  induction budget generalizing scan back with
  | zero =>
    rw [List.eq_nil_of_length_eq_zero (Nat.le_zero.mp fits)] at left ⊢
    rw [skipWhile, run_bind_ok (run_current left)]
    exact ⟨scan, rfl, .refl scan⟩
  | succ budget ih =>
    rw [skipWhile, run_bind_ok (run_current left)]
    cases back with
    | nil => exact ⟨scan, rfl, .refl scan⟩
    | cons c back =>
      simp only [List.head?_cons]
      by_cases hc : property c = true
      · -- A turn is taken and a character is passed, so the budget still suffices.
        have hleft : LeftAt text (scan.pass c).cursor.position back := left.across [c]
        obtain ⟨after, hrun, hrest⟩ := ih hleft (Nat.le_of_succ_le_succ fits)
        rw [if_pos hc, run_bind_ok (run_advance left), List.takeWhile_cons_of_pos hc]
        exact ⟨after, hrun, (Shifted.pass scan c).trans hrest⟩
      · rw [if_neg hc, List.takeWhile_cons_of_neg hc]
        exact ⟨scan, rfl, .refl scan⟩

/-- What is left is no longer than the text. -/
theorem LeftAt.length_le {position : Nat} (left : LeftAt text position back) :
    back.length ≤ text.length := by
  obtain ⟨front, rfl, -⟩ := left
  rw [List.length_append]
  exact Nat.le_add_left ..

/-- What stands in front of the first delimiter. -/
theorem takeWhile_plain (cs : List Char) :
    (∀ c ∈ cs.takeWhile fun c => !isDelimiter c, isDelimiter c = false) ∧
      (∀ c, (cs.dropWhile fun c => !isDelimiter c).head? = some c → isDelimiter c = true) ∧
      (cs.takeWhile fun c => !isDelimiter c) ++ (cs.dropWhile fun c => !isDelimiter c) = cs := by
  refine ⟨fun c hc => ?_, fun c hc => ?_, List.takeWhile_append_dropWhile⟩
  · simpa using List.mem_takeWhile_imp hc
  · have hnot := List.head?_dropWhile_not (fun c => !isDelimiter c) cs
    rw [hc] at hnot
    simpa using hnot

/-- A cut that is there is given. -/
theorem run_slice {start stop : Nat} {found : List Char}
    (h : slice? start stop text = some found) :
    (slice text start stop).run scan = .ok found scan := by
  rw [slice, h]
  rfl

/-- What stands between two offsets of the text can be cut out. -/
theorem slice?_eq {position : Nat} (part : List Char)
    (left : LeftAt text position (part ++ back)) :
    slice? position (position + textSize part) text = some part := by
  obtain ⟨front, hsplit⟩ := left.exists_split
  -- Two cuts: behind all that was read before, and then behind the part.
  rw [slice?, if_pos (Nat.le_add_right ..), hsplit, Nat.add_sub_cancel_left]
  simp [splitBytes?_append]

end

section

variable {α : Type} {text back : List Char} {limit calls turns depth size : Nat} {before : Scan}
  {state : State} {next : α → Nat → List Char → Except SyntaxError Shape}

/-- White space outside of names is passed by, and the reader stays in its state. -/
theorem Agrees.skip {turns' : Nat} {goOn : Descending α}
    (stands : Stands text calls turns' before back) (level : before.cursor.depth = depth)
    (outside : state.OutsideNames) (fits : back.length ≤ size)
    (h : ∀ after rest, rest = back.dropWhile isBlank → Stands text calls turns' after rest →
      after.cursor.depth = depth → rest.length ≤ size →
      Agrees text calls turns depth size (conclude limit state after.cursor.position rest) next
        (goOn.run after)) :
    Agrees text calls turns depth size (conclude limit state before.cursor.position back) next
      ((skipBlanks text >>= fun _ => goOn).run before) := by
  obtain ⟨after, hrun, shifted⟩ := exists_skipWhile stands.left isBlank stands.left.length_le
  -- The loop moved the cursor over the white space and did nothing else.
  have hsplit : back = back.takeWhile isBlank ++ back.dropWhile isBlank :=
    List.takeWhile_append_dropWhile.symm
  have hafter : Stands text calls turns' after (back.dropWhile isBlank) := by
    rw [hsplit] at stands
    exact stands.across _ shifted (Nat.le_add_right ..) (Nat.le_add_right ..)
  have hposition : after.cursor.position =
      before.cursor.position + textSize (back.takeWhile isBlank) := by
    rw [shifted.cursor]
    rfl
  have hdepth : after.cursor.depth = depth := by
    rw [shifted.cursor]
    exact level
  rw [skipBlanks, run_bind_ok hrun, conclude_skip outside, ← hposition]
  exact h after _ rfl hafter hdepth
    (Nat.le_trans (List.dropWhile_sublist isBlank).length_le fits)

/-- A closing bracket hands on its shape. -/
theorem Agrees.close {c : Char} {shape : Shape} {frames : List Frame} {found : α}
    (stands : Stands text calls turns before (c :: back)) (level : before.cursor.depth = depth)
    (fits : (c :: back).length ≤ size)
    (hand : state.step limit before.cursor.position c = complete shape frames)
    (same : next found = concludeShape limit frames shape) :
    Agrees text calls turns depth size (conclude limit state before.cursor.position (c :: back))
      next ((advance text >>= fun _ => pure found).run before) := by
  rw [run_bind_ok (run_advance stands.left)]
  -- The bracket pays for more than is asked of it: no call and no turn goes with it.
  refine .ok (stands.pass (Nat.le_succ _) (Nat.le_succ _)) level
    (Nat.le_of_succ_le fits) ?_
  rw [same, conclude_cons, hand]
  rfl

/-- White space that was passed by is followed by something else. -/
theorem solid_of_eq_dropWhile {rest : List Char} (h : rest = back.dropWhile isBlank) {c : Char}
    (hc : rest.head? = some c) : isBlank c = false :=
  head_dropWhile_isBlank (h ▸ hc)

end

end Shape.Descent

end DocShape
