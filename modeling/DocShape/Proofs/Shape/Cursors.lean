import DocShape.Proofs.Shape.Descent

/-!
# `DocShape.Proofs.Shape.Cursors`: how a descent moves its cursor

A cursor is sound if it is between two characters of the text and no more containers are open than
the limit allows. From a sound cursor every part of a descent goes to sound cursors only, never
back and never out of the containers that were open, and when it ends as many are open as before
(`Kept`). That holds whether it fails or not, and however many turns it may take.

`Keeps` says this of a part together with what its result is, and `Keeps.bind` puts parts in a
row. A part that reads something of its own ends further on than it began (`Disciplined`): there
is one lemma for each, up to `disciplined_node`.
-/

set_option autoImplicit false

namespace DocShape

namespace Shape.Descent

open Reader

/-! ### Where a text is cut -/

/-- What is left of the text at a position. -/
def LeftAt (text : List Char) (position : Nat) (back : List Char) : Prop :=
  ∃ front, text = front ++ back ∧ textSize front = position

/-- The bytes of two texts in a row add up. -/
theorem textSize_append (cs ds : List Char) :
    textSize (cs ++ ds) = textSize cs + textSize ds := by
  induction cs with
  | nil => exact (Nat.zero_add _).symm
  | cons c cs ih => rw [List.cons_append, textSize, ih, textSize, Nat.add_assoc]

namespace LeftAt

variable {text back : List Char} {position : Nat}

/-- At the start the whole text is left. -/
theorem start (text : List Char) : LeftAt text 0 text :=
  ⟨[], rfl, rfl⟩

/-- Behind a part of it the rest is left. -/
theorem across (part : List Char) (left : LeftAt text position (part ++ back)) :
    LeftAt text (position + textSize part) back := by
  obtain ⟨front, hsplit, hsize⟩ := left
  refine ⟨front ++ part, by rw [hsplit, List.append_assoc], ?_⟩
  rw [textSize_append, hsize]

/-- The text can be cut there. -/
theorem exists_split (left : LeftAt text position back) :
    ∃ front, splitBytes? position text = some (front, back) := by
  obtain ⟨front, rfl, rfl⟩ := left
  exact ⟨front, splitBytes?_append front back⟩

end LeftAt

/-- Something is left of a text where its UTF-8 form can be cut. -/
theorem exists_leftAt_iff {source : String} {position : Nat} :
    (∃ back, LeftAt source.toList position back) ↔ String.Pos.Raw.IsValid source ⟨position⟩ := by
  -- Both sides cut the text in two. They differ in how they count the bytes in front.
  rw [String.Pos.Raw.isValid_iff_exists_append]
  constructor
  · rintro ⟨back, front, hsplit, rfl⟩
    refine ⟨String.ofList front, String.ofList back, ?_, ?_⟩
    · rw [← String.ofList_append, ← hsplit, String.ofList_toList]
    · rw [← utf8ByteSize_ofList]
      rfl
  · rintro ⟨front, back, rfl, hposition⟩
    refine ⟨back.toList, front.toList, String.toList_append, ?_⟩
    rw [← utf8ByteSize_ofList, String.ofList_toList]
    exact (String.Pos.Raw.mk.inj hposition).symm

/-! ### Looking at the text -/

section

variable {text : List Char} {scan : Scan} {back : List Char}

/-- What follows a part that gives something goes on from there. -/
theorem run_bind_ok {α β : Type} {part : Descending α} {next : α → Descending β} {found : α}
    {after : Scan} (h : part.run scan = .ok found after) :
    (part >>= next).run scan = (next found).run after := by
  rw [EStateM.run_bind, h]

/-- Asking where the cursor is changes nothing. -/
theorem run_position : position.run scan = .ok scan.cursor.position scan :=
  rfl

/-- The current character is the first one of what is left, if anything is. -/
theorem run_current (left : LeftAt text scan.cursor.position back) :
    (current text).run scan = .ok back.head? scan := by
  obtain ⟨front, hsplit⟩ := left.exists_split
  rw [current, run_bind_ok run_position, hsplit]
  rfl

/-- Going on passes the first character of what is left. -/
theorem run_advance {c : Char}
    (left : LeftAt text scan.cursor.position (c :: back)) :
    (advance text).run scan = .ok () (scan.pass c) := by
  rw [advance, run_bind_ok (run_current left)]
  rfl

/-- At the end of the text there is no further to go. -/
theorem run_advance_nil (left : LeftAt text scan.cursor.position []) :
    (advance text).run scan = .ok () scan := by
  rw [advance, run_bind_ok (run_current left)]
  rfl

end

/-! ### Sound cursors -/

/-- The cursor is between two characters of the text, and no more containers are open than the
limit allows. -/
structure Cursor.Sound (source : String) (limit : Nat) (cursor : Cursor) : Prop where
  inside : cursor.position ≤ source.utf8ByteSize
  boundary : String.Pos.Raw.IsValid source ⟨cursor.position⟩
  depth : cursor.depth ≤ limit

namespace Cursor.Sound

variable {source : String} {limit : Nat} {cursor : Cursor}

/-- A cursor with a rest of the text behind it is between two characters. -/
theorem of_leftAt {back : List Char} (left : LeftAt source.toList cursor.position back)
    (depth : cursor.depth ≤ limit) : cursor.Sound source limit := by
  have hvalid := exists_leftAt_iff.mp ⟨back, left⟩
  exact ⟨hvalid.le_rawEndPos, hvalid, depth⟩

/-- Behind a sound cursor stands a rest of the text. -/
theorem exists_left (sound : cursor.Sound source limit) :
    ∃ back, LeftAt source.toList cursor.position back :=
  exists_leftAt_iff.mpr sound.boundary

end Cursor.Sound

/-- A way of the cursor that goes nowhere back, with at least `floor` containers open all along.
It lists the cursors behind the first. -/
inductive Moves (source : String) (limit floor : Nat) : Cursor → List Cursor → Cursor → Prop where
  | stay {cursor : Cursor} (sound : cursor.Sound source limit) :
    Moves source limit floor cursor [] cursor
  | move {first next last : Cursor} {passed : List Cursor} (sound : next.Sound source limit)
    (onward : first.position ≤ next.position) (inside : floor ≤ next.depth)
    (rest : Moves source limit floor next passed last) :
    Moves source limit floor first (next :: passed) last

namespace Moves

variable {source : String} {limit floor : Nat} {first last : Cursor} {passed : List Cursor}

/-- Moves go on from where other moves end. -/
theorem append {middle : Cursor} {passed' : List Cursor}
    (front : Moves source limit floor first passed middle)
    (back : Moves source limit floor middle passed' last) :
    Moves source limit floor first (passed ++ passed') last := by
  induction front with
  | stay => exact back
  | move sound onward inside _ ih => exact .move sound onward inside (ih back)

/-- Where more containers are open all along, so are fewer. -/
theorem lower {floor' : Nat} (moves : Moves source limit floor first passed last)
    (le : floor' ≤ floor) : Moves source limit floor' first passed last := by
  induction moves with
  | stay sound => exact .stay sound
  | move sound onward inside _ ih => exact .move sound onward (Nat.le_trans le inside) ih

/-- Moves end at a sound cursor. -/
theorem sound (moves : Moves source limit floor first passed last) :
    last.Sound source limit := by
  induction moves with
  | stay sound => exact sound
  | move _ _ _ _ ih => exact ih

/-- Moves go onward only. -/
theorem position_le (moves : Moves source limit floor first passed last) :
    first.position ≤ last.position := by
  induction moves with
  | stay => exact Nat.le_refl _
  | move _ onward _ _ ih => exact Nat.le_trans onward ih

/-- All cursors on the way are sound and deep enough, and none of them is in front of one that
came before. -/
theorem forall_passed (moves : Moves source limit floor first passed last) :
    (∀ cursor ∈ passed, cursor.Sound source limit ∧ floor ≤ cursor.depth) ∧
      (first :: passed).Pairwise (·.position ≤ ·.position) := by
  induction moves with
  | stay => exact ⟨nofun, List.pairwise_singleton ..⟩
  | @move first next last passed sound onward inside rest ih =>
    obtain ⟨hall, hpairwise⟩ := ih
    refine ⟨List.forall_mem_cons.mpr ⟨⟨sound, inside⟩, hall⟩, ?_⟩
    -- The first cursor is in front of the next one, and that is in front of all others.
    refine List.pairwise_cons.mpr ⟨?_, hpairwise⟩
    refine List.forall_mem_cons.mpr ⟨onward, fun cursor hcursor => ?_⟩
    exact Nat.le_trans onward ((List.pairwise_cons.mp hpairwise).1 cursor hcursor)

end Moves

/-! ### What parts keep -/

/-- From one scan to another the cursor moves with discipline, and as many containers are open as
before. -/
structure Kept (source : String) (limit : Nat) (before after : Scan) : Prop where
  moves : ∃ passed, after.trail = before.trail ++ passed ∧
    Moves source limit before.cursor.depth before.cursor passed after.cursor
  depth : after.cursor.depth = before.cursor.depth

namespace Kept

variable {source : String} {limit : Nat} {before middle after : Scan}

/-- A scan that is left where it is, whatever else it counts. -/
theorem of_eq (sound : before.cursor.Sound source limit) (hcursor : after.cursor = before.cursor)
    (htrail : after.trail = before.trail) : Kept source limit before after := by
  refine ⟨⟨[], by rw [htrail, List.append_nil], ?_⟩, by rw [hcursor]⟩
  rw [hcursor]
  exact .stay sound

/-- A part that does nothing keeps all. -/
theorem refl (sound : before.cursor.Sound source limit) : Kept source limit before before :=
  .of_eq sound rfl rfl

/-- Two parts in a row keep what both keep. The second one is as deep as the first, so it leaves
no container that the first one was in. -/
theorem trans (front : Kept source limit before middle) (back : Kept source limit middle after) :
    Kept source limit before after := by
  obtain ⟨⟨passed, htrail, hfront⟩, hdepth⟩ := front
  obtain ⟨⟨passed', htrail', hback⟩, hdepth'⟩ := back
  rw [hdepth] at hback
  exact ⟨⟨passed ++ passed', by rw [htrail', htrail, List.append_assoc], hfront.append hback⟩,
    hdepth'.trans hdepth⟩

/-- What is kept ends at a sound cursor. -/
theorem sound (kept : Kept source limit before after) : after.cursor.Sound source limit := by
  obtain ⟨_, -, hmoves⟩ := kept.moves
  exact hmoves.sound

/-- What is kept ends no earlier than it began. -/
theorem position_le (kept : Kept source limit before after) :
    before.cursor.position ≤ after.cursor.position := by
  obtain ⟨_, -, hmoves⟩ := kept.moves
  exact hmoves.position_le

/-- Going behind a character. -/
theorem pass {c : Char} {back : List Char} (sound : before.cursor.Sound source limit)
    (left : LeftAt source.toList before.cursor.position (c :: back)) :
    Kept source limit before (before.pass c) := by
  -- The bytes of a whole character are added, so the next cursor is between characters too.
  have hnext : (before.pass c).cursor.Sound source limit :=
    .of_leftAt (left.across [c]) sound.depth
  exact ⟨⟨_, rfl, .move hnext (Nat.le_add_right ..) (Nat.le_refl _) (.stay hnext)⟩, rfl⟩

/-- What is kept one container deeper is kept with the way down to it and the way up from it. -/
theorem within (sound : before.cursor.Sound source limit) (room : before.cursor.depth < limit)
    (inner : Kept source limit (before.move before.cursor.down) after) :
    Kept source limit before (after.move after.cursor.up) := by
  -- The trail gets the way down, all that was passed inside, and the way up.
  obtain ⟨⟨passed, htrail, hmoves⟩, hdepth⟩ := inner
  have hdown : before.cursor.down.Sound source limit := ⟨sound.inside, sound.boundary, room⟩
  have hup : after.cursor.up.depth = before.cursor.depth := by
    show after.cursor.depth - 1 = before.cursor.depth
    rw [hdepth]
    rfl
  have hlast : after.cursor.up.Sound source limit := by
    refine ⟨hmoves.sound.inside, hmoves.sound.boundary, ?_⟩
    rw [hup]
    exact sound.depth
  refine ⟨⟨before.cursor.down :: (passed ++ [after.cursor.up]), ?_, ?_⟩, hup⟩
  · show after.trail ++ [after.cursor.up] = _
    rw [htrail]
    simp [Scan.move]
  · refine .move hdown (Nat.le_refl _) (Nat.le_succ _) ?_
    refine .append (hmoves.lower (Nat.le_succ _)) ?_
    exact .move hlast (Nat.le_refl _) (Nat.le_of_eq hup.symm) (.stay hlast)

end Kept

/-- However a part ends, it moved the cursor with discipline. If it gives something, then that has
a property together with the scan behind it. -/
inductive Keeps {α : Type} (source : String) (limit : Nat) (before : Scan)
    (post : α → Scan → Prop) : EStateM.Result Halt Scan α → Prop where
  | ok {found : α} {after : Scan} (kept : Kept source limit before after)
    (holds : post found after) : Keeps source limit before post (.ok found after)
  | error {halt : Halt} {after : Scan} (kept : Kept source limit before after) :
    Keeps source limit before post (.error halt after)

/-- The scan is further on than another. -/
def Further {α : Type} (before : Scan) (_ : α) (after : Scan) : Prop :=
  before.cursor.position < after.cursor.position

/-- The scan may be anywhere. -/
def Anywhere {α : Type} (_ : α) (_ : Scan) : Prop :=
  True

namespace Keeps

variable {α β : Type} {source : String} {limit : Nat} {before : Scan}

/-- What is kept from a scan on is kept from an earlier one on. -/
theorem after {post : α → Scan → Prop} {mid : Scan} {result : EStateM.Result Halt Scan α}
    (kept : Kept source limit before mid) (keeps : Keeps source limit mid post result) :
    Keeps source limit before post result := by
  cases keeps with
  | ok kept' holds => exact .ok (kept.trans kept') holds
  | error kept' => exact .error (kept.trans kept')

/-- Parts in a row keep what each of them keeps. -/
theorem bind {middle : α → Scan → Prop} {post : β → Scan → Prop} {part : Descending α}
    {next : α → Descending β} (keeps : Keeps source limit before middle (part.run before))
    (h : ∀ found mid, Kept source limit before mid → middle found mid →
      Keeps source limit mid post ((next found).run mid)) :
    Keeps source limit before post ((part >>= next).run before) := by
  rw [EStateM.run_bind]
  generalize part.run before = result at keeps ⊢
  -- Where the first part stops, the second is not called and nothing more is moved.
  cases keeps with
  | error kept => exact .error kept
  | ok kept holds => exact .after kept (h _ _ kept holds)

/-- A part with one result keeps the same with any result that follows from it. -/
theorem imp {post other : α → Scan → Prop} {result : EStateM.Result Halt Scan α}
    (keeps : Keeps source limit before post result)
    (h : ∀ found after, Kept source limit before after → post found after → other found after) :
    Keeps source limit before other result := by
  cases keeps with
  | ok kept holds => exact .ok kept (h _ _ kept holds)
  | error kept => exact .error kept

/-- To return a result moves nothing. -/
theorem pure {post : α → Scan → Prop} (sound : before.cursor.Sound source limit) {found : α}
    (holds : post found before) :
    Keeps source limit before post ((Pure.pure found : Descending α).run before) :=
  .ok (.refl sound) holds

/-- To stop moves nothing. -/
theorem throw {post : α → Scan → Prop} (sound : before.cursor.Sound source limit) (halt : Halt) :
    Keeps source limit before post ((MonadExcept.throw halt : Descending α).run before) :=
  .error (.refl sound)

/-- What is further on than a place behind another is further on than that one. -/
theorem further {mid : Scan} {result : EStateM.Result Halt Scan α}
    (keeps : Keeps source limit mid (Further mid) result) (kept : Kept source limit before mid) :
    Keeps source limit mid (Further before) result :=
  keeps.imp fun _ _ _ h => Nat.lt_of_le_of_lt kept.position_le h

/-- Making something of a result moves nothing. -/
theorem give {mid : Scan} {part : Descending α} {make : α → β}
    (keeps : Keeps source limit mid (Further mid) (part.run mid))
    (kept : Kept source limit before mid) :
    Keeps source limit mid (Further before)
      ((part >>= fun found => Pure.pure (make found)).run mid) :=
  (keeps.further kept).bind fun _ _ done further => .pure done.sound further

end Keeps

/-- From every sound cursor the part moves the cursor with discipline, and if it gives something,
it ends further on. -/
def Disciplined {α : Type} (source : String) (limit : Nat) (part : Descending α) : Prop :=
  ∀ before : Scan, before.cursor.Sound source limit →
    Keeps source limit before (Further before) (part.run before)

/-! ### Parts of a descent -/

variable {source : String} {limit : Nat} {before : Scan}

/-- Going behind a character that is there. -/
theorem keeps_advance_of_left {c : Char} {back : List Char}
    (sound : before.cursor.Sound source limit)
    (left : LeftAt source.toList before.cursor.position (c :: back)) :
    Keeps source limit before (Further before) ((advance source.toList).run before) := by
  have hpos := c.utf8Size_pos
  rw [run_advance left]
  exact .ok (.pass sound left) (Nat.lt_add_of_pos_right hpos)

/-- Going on keeps the cursor sound, at the end of the text as well. -/
theorem keeps_advance (sound : before.cursor.Sound source limit) :
    Keeps source limit before Anywhere ((advance source.toList).run before) := by
  obtain ⟨back, left⟩ := sound.exists_left
  cases back with
  | nil =>
    rw [run_advance_nil left]
    exact .ok (.refl sound) trivial
  | cons c back => exact (keeps_advance_of_left sound left).imp fun _ _ _ _ => trivial

/-- A loop over characters keeps the cursor sound, however many turns it may take. -/
theorem keeps_skipWhile (sound : before.cursor.Sound source limit) (property : Char → Bool)
    (budget : Nat) :
    Keeps source limit before Anywhere
      ((skipWhile source.toList property budget).run before) := by
  induction budget generalizing before with
  | zero =>
    -- No turn is left. That is a fault of its own only if there is something to pass.
    obtain ⟨back, left⟩ := sound.exists_left
    rw [skipWhile, run_bind_ok (run_current left)]
    cases back with
    | nil => exact .pure sound trivial
    | cons c back =>
      simp only [List.head?_cons]
      split
      · exact .throw sound _
      · exact .pure sound trivial
  | succ budget ih =>
    obtain ⟨back, left⟩ := sound.exists_left
    rw [skipWhile, run_bind_ok (run_current left)]
    cases back with
    | nil => exact .pure sound trivial
    | cons c back =>
      simp only [List.head?_cons]
      split
      · exact (keeps_advance sound).bind fun _ _ kept _ => ih kept.sound
      · exact .pure sound trivial

/-- A slice of no length is empty. -/
theorem keeps_slice (sound : before.cursor.Sound source limit) (start stop : Nat) :
    Keeps source limit before (fun found after => before = after ∧ (start = stop → found = []))
      ((slice source.toList start stop).run before) := by
  unfold slice
  split
  · next found hslice =>
    refine .pure sound ⟨rfl, ?_⟩
    rintro rfl
    rw [slice?, if_pos (Nat.le_refl start), Nat.sub_self] at hslice
    obtain ⟨⟨front, back⟩, -, hfound⟩ := Option.bind_eq_some_iff.mp hslice
    have hempty : some [] = some found := by simpa [splitBytes?] using hfound
    exact (Option.some.inj hempty).symm
  -- A cut that fails moves nothing. That none fails is shown where the text is read.
  · exact .throw sound _

/-- A field is read with discipline: its name has a letter, or the text is refused. -/
theorem disciplined_field {node : Descending Shape} (inner : Disciplined source limit node)
    (opened : Nat) : Disciplined source limit (field source.toList node opened) := by
  intro before sound
  rw [field, run_bind_ok run_position]
  refine (keeps_skipWhile sound _ _).bind fun _ mid kept _ => ?_
  rw [run_bind_ok run_position]
  refine (keeps_slice kept.sound _ _).bind ?_
  rintro letters _ - ⟨rfl, hempty⟩
  -- A name has a letter that is not blank, so the slice is not empty.
  have hfurther (hname : trim letters ≠ []) : before.cursor.position < mid.cursor.position := by
    refine Nat.lt_of_le_of_ne kept.position_le fun hsame => hname ?_
    rw [hempty hsame]
    rfl
  obtain ⟨back, left⟩ := kept.sound.exists_left
  rw [run_bind_ok (run_current left)]
  cases back with
  | nil =>
    simp only [List.head?_nil]
    split
    · exact .throw kept.sound _
    · next hname => exact .pure kept.sound (hfurther hname)
  | cons c back =>
    simp only [List.head?_cons]
    split
    · exact .throw kept.sound _
    · next hname =>
      split
      -- With a shape behind the name the field ends where the shape does.
      · exact (inner mid kept.sound).give kept
      · exact .pure kept.sound (hfurther hname)

/-- Joining a field to others moves nothing. -/
theorem keeps_join (sound : before.cursor.Sound source limit) (fields : List Field)
    (found : Field) (start : Nat) :
    Keeps source limit before Anywhere ((join fields found start).run before) := by
  unfold join
  split
  · exact .pure sound trivial
  · exact .throw sound _

/-- A loop over fields is disciplined, however many turns it may take. -/
theorem disciplined_fieldLoop {node : Descending Shape} (inner : Disciplined source limit node)
    (opened budget : Nat) (fields : List Field) :
    Disciplined source limit (fieldLoop source.toList node opened budget fields) := by
  induction budget generalizing fields with
  | zero => exact fun before sound => .throw sound _
  | succ budget ih =>
    intro before sound
    have hturn : Kept source limit before before.turn := .of_eq sound rfl rfl
    rw [fieldLoop, run_bind_ok (EStateM.run_modify ..), run_bind_ok run_position]
    refine .after hturn ?_
    refine (disciplined_field inner opened _ hturn.sound).bind fun found mid kept further => ?_
    refine (keeps_join kept.sound _ _ _).bind fun fields mid' kept' _ => ?_
    refine (keeps_skipWhile kept'.sound _ _).bind fun _ last kept'' _ => ?_
    -- The field was further on, so all that follows is.
    have further : before.cursor.position < last.cursor.position :=
      Nat.lt_of_lt_of_le further (kept'.trans kept'').position_le
    obtain ⟨back, left⟩ := kept''.sound.exists_left
    rw [run_bind_ok run_position, run_bind_ok (run_current left)]
    cases back with
    | nil => exact .throw kept''.sound _
    | cons c back =>
      simp only [List.head?_cons]
      split
      · -- Behind a comma comes the next turn.
        refine (keeps_advance kept''.sound).bind fun _ mid kept _ => ?_
        refine (keeps_skipWhile kept.sound _ _).bind fun _ mid' kept' _ => ?_
        refine (ih fields mid' kept'.sound).imp fun _ _ rest _ => ?_
        exact Nat.lt_of_lt_of_le further ((kept.trans kept').trans rest).position_le
      · split
        · refine (keeps_advance kept''.sound).bind fun _ mid kept _ => .pure kept.sound ?_
          exact Nat.lt_of_lt_of_le further kept.position_le
        · exact .throw kept''.sound _

/-- An object is read with discipline. -/
theorem disciplined_object {node : Descending Shape} (inner : Disciplined source limit node)
    (opened : Nat) : Disciplined source limit (object source.toList node opened) := by
  intro before sound
  refine (keeps_advance sound).bind fun _ mid kept _ => ?_
  refine (keeps_skipWhile kept.sound _ _).bind fun _ mid' kept' _ => ?_
  have hkept := kept.trans kept'
  obtain ⟨back, left⟩ := kept'.sound.exists_left
  rw [run_bind_ok (run_current left)]
  cases back with
  -- At the end of the text the loop is entered all the same, and refuses the name there.
  | nil => exact (disciplined_fieldLoop inner opened _ [] mid' kept'.sound).give hkept
  | cons c back =>
    simp only [List.head?_cons]
    split
    · exact (keeps_advance_of_left kept'.sound left).give hkept
    · exact (disciplined_fieldLoop inner opened _ [] mid' kept'.sound).give hkept

/-- The end of an array is read with discipline, since its bracket is passed. -/
theorem disciplined_arrayEnd (opened : Nat) (shape : Shape) :
    Disciplined source limit (arrayEnd source.toList opened shape) := by
  intro before sound
  refine (keeps_skipWhile sound _ _).bind fun _ mid kept _ => ?_
  obtain ⟨back, left⟩ := kept.sound.exists_left
  rw [run_bind_ok run_position, run_bind_ok (run_current left)]
  cases back with
  | nil => exact .throw kept.sound _
  | cons c back =>
    simp only [List.head?_cons]
    split
    · exact (keeps_advance_of_left kept.sound left).give kept
    · exact .throw kept.sound _

/-- An array is read with discipline. -/
theorem disciplined_array {node : Descending Shape} (inner : Disciplined source limit node)
    (opened : Nat) : Disciplined source limit (array source.toList node opened) := by
  intro before sound
  refine (keeps_advance sound).bind fun _ mid kept _ => ?_
  refine (keeps_skipWhile kept.sound _ _).bind fun _ mid' kept' _ => ?_
  have hkept := kept.trans kept'
  obtain ⟨back, left⟩ := kept'.sound.exists_left
  rw [run_bind_ok run_position, run_bind_ok (run_current left)]
  cases back with
  | nil => exact .throw kept'.sound _
  | cons c back =>
    simp only [List.head?_cons]
    split
    -- Without an element the closing bracket is still there to be passed.
    · exact (disciplined_arrayEnd opened _ mid' kept'.sound).further hkept
    · split
      · refine (inner mid' kept'.sound).bind fun shape last kept'' _ => ?_
        exact (disciplined_arrayEnd opened _ last kept''.sound).further (hkept.trans kept'')
      · exact .throw kept'.sound _

/-- Whatever happens one container deeper, as many containers are open behind it as before. -/
theorem disciplined_nested {part : Descending Shape} (inner : Disciplined source limit part)
    (opened : Nat) : Disciplined source limit (nested limit opened part) := by
  intro before sound
  rw [nested, run_bind_ok (EStateM.run_get _)]
  split
  · exact .throw sound _
  · next room =>
    have room : before.cursor.depth < limit := Nat.lt_of_not_le room
    have hdown := inner (before.move before.cursor.down) ⟨sound.inside, sound.boundary, room⟩
    show Keeps source limit before (Further before) ((within part) before)
    -- The cursor comes back up however the part ends, so both ends are treated alike.
    unfold within
    generalize part.run (before.move before.cursor.down) = result at hdown
    cases hdown with
    | ok kept further => exact .ok (kept.within sound room) further
    | error kept => exact .error (kept.within sound room)

/-- A shape is read with discipline, however many levels may be inside each other. -/
theorem disciplined_node (levels : Nat) :
    Disciplined source limit (node source.toList limit levels) := by
  -- On the levels that are left: what is inside has one less of them.
  induction levels with
  | zero => exact fun before sound => .throw sound _
  | succ levels ih =>
    intro before sound
    have hcall : Kept source limit before before.call := .of_eq sound rfl rfl
    obtain ⟨back, left⟩ := hcall.sound.exists_left
    rw [node, run_bind_ok (EStateM.run_modify ..), run_bind_ok run_position,
      run_bind_ok (run_current left)]
    refine .after hcall ?_
    cases back with
    | nil => exact .throw hcall.sound _
    | cons c back =>
      simp only [List.head?_cons]
      split
      · exact disciplined_nested (disciplined_object ih _) _ _ hcall.sound
      · exact disciplined_nested (disciplined_array ih _) _ _ hcall.sound
      · exact .throw hcall.sound _

/-- The whole descent keeps what its parts keep. -/
theorem keeps_root (sound : before.cursor.Sound source limit) :
    Keeps source limit before Anywhere ((root source.toList limit).run before) := by
  refine (keeps_skipWhile sound _ _).bind fun _ mid kept _ => ?_
  obtain ⟨back, left⟩ := kept.sound.exists_left
  rw [run_bind_ok run_position, run_bind_ok (run_current left)]
  cases back with
  | nil => exact .throw kept.sound _
  | cons c back =>
    simp only [List.head?_cons]
    split
    · -- Behind the shape there is only white space to pass.
      refine (disciplined_node _ mid kept.sound).bind fun shape mid' kept' _ => ?_
      refine (keeps_skipWhile kept'.sound _ _).bind fun _ last kept'' _ => ?_
      obtain ⟨rest, left'⟩ := kept''.sound.exists_left
      rw [run_bind_ok run_position, run_bind_ok (run_current left')]
      cases rest with
      | nil => exact .pure kept''.sound trivial
      | cons => exact .throw kept''.sound _
    · exact .throw kept.sound _

end Shape.Descent

end DocShape
