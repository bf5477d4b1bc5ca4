import DocShape.Proofs.Shape.Rests

/-!
# `DocShape.Proofs.Shape.Discipline`: a descent reads what the reader reads

Each part of a descent ends as the reader does on the rest of the text. There is one lemma for
each, under the assumption that shapes further inside are read as the reader does (`Reads`). It is
true of `node` as long as there are as many levels as characters, since each level takes a bracket
off the rest (`reads_node`).

`orderly` puts this together with how the cursor moves. The calls and the turns are counted on the
way, since each of them is paid for by a character: a call by its bracket, the first turn of a
loop by the bracket of the object and every other turn by the comma in front of it.
-/

set_option autoImplicit false

namespace DocShape

namespace Shape.Descent

open Grammar Reader

/-! ### The descent and the reader -/

/-- A part reads shapes as the reader does, where at most `size` characters are left. -/
def Reads (text : List Char) (limit size : Nat) (node : Descending Shape) : Prop :=
  ∀ (calls turns : Nat) (before : Scan) (state : State) (frames : List Frame) (b : Bracket)
    (back : List Char), Stands text calls turns before (b.opening :: back) →
    state.Opens limit frames → before.cursor.depth = frames.length → back.length < size →
    Agrees text calls turns frames.length (back.length + 1)
      (conclude limit state before.cursor.position (b.opening :: back))
      (concludeShape limit frames) (node.run before)

section

variable {text back : List Char} {limit size calls turns opened : Nat} {before : Scan}
  {frames : List Frame} {fields : List Field} {node : Descending Shape}

/-- A missing name is a fault, of the object if the text ends there. -/
theorem agrees_nameless {c : Char} {rest : List Char} {next : Field → Nat → List Char →
      Except SyntaxError Shape}
    (stands : Stands text calls turns before (c :: rest)) (delimiter : isDelimiter c = true)
    (more : fields = [] → c ≠ Bracket.brace.closing) :
    Agrees text calls turns (frames.length + 1) size
      (conclude limit (.inside (.fieldStart opened fields) frames) before.cursor.position
        (c :: rest)) next
      ((fail (.emptyFieldName before.cursor.position) : Descending Field).run before) := by
  refine .fail stands (conclude_of_refused ?_ rest)
  have hmore : ¬(c = Bracket.brace.closing ∧ fields = []) := fun h => more h.2 h.1
  simp only [State.step, Place.step, isBlank_of_isDelimiter delimiter, Bool.false_eq_true,
    if_false, if_neg hmore, delimiter, if_true]

/-- Behind its name a field ends, or the shape of the field is read. -/
theorem agrees_named {start : Nat} {letters : List Char} (inner : Reads text limit size node)
    (stands : Stands text calls turns before back)
    (level : before.cursor.depth = frames.length + 1) (fits : back.length ≤ size)
    (ends : ∀ c, back.head? = some c → isDelimiter c = true) :
    Agrees text calls turns (frames.length + 1) back.length
      (conclude limit (.inside (.fieldName opened fields start letters) frames)
        before.cursor.position back)
      (concludeField limit opened fields start frames)
      ((match back.head? with
        | none => pure (.leaf (nameOf letters))
        | some c =>
          if (Bracket.ofOpening? c).isSome then
            node >>= fun shape => pure (.nested (nameOf letters) shape)
          else pure (.leaf (nameOf letters)) : Descending Field).run before) := by
  cases back with
  | nil => exact .ok stands level (Nat.le_refl _) (conclude_leaf (by rintro _ ⟨⟩) _)
  | cons c rest =>
    cases hc : Bracket.ofOpening? c with
    | none =>
      simp only [List.head?_cons, hc, Option.isSome_none, Bool.false_eq_true, if_false]
      refine .ok stands level (Nat.le_refl _) (conclude_leaf ?_ _)
      rintro _ ⟨⟩
      exact ⟨ends c rfl, hc⟩
    | some b =>
      -- The shape behind the name is a level further inside.
      obtain rfl := eq_opening_of_ofOpening? hc
      simp only [List.head?_cons, hc, Option.isSome_some, if_true]
      have hnode := inner calls turns before _ _ b rest stands
        (opens_fieldName limit opened start fields letters frames) level fits
      rw [concludeShape_field] at hnode
      exact hnode.give

/-- A field is read as the reader does, up to the comparison of its name with the earlier ones. -/
theorem agrees_field (inner : Reads text limit size node)
    (stands : Stands text calls turns before back)
    (level : before.cursor.depth = frames.length + 1) (fits : back.length ≤ size)
    (solid : ∀ c, back.head? = some c → isBlank c = false)
    (more : fields = [] → back.head? ≠ some Bracket.brace.closing) :
    Agrees text calls turns (frames.length + 1) back.length
      (conclude limit (.inside (.fieldStart opened fields) frames) before.cursor.position back)
      (concludeField limit opened fields before.cursor.position frames)
      ((field text node opened).run before) := by
  obtain ⟨after, hrun, shifted⟩ :=
    exists_skipWhile stands.left (fun c => !isDelimiter c) stands.left.length_le
  obtain ⟨plain, ends, hsplit⟩ := takeWhile_plain back
  -- The raw name is cut out between two offsets, and it is what the loop has passed.
  rw [field, run_bind_ok run_position, run_bind_ok hrun, run_bind_ok run_position]
  generalize back.takeWhile (fun c => !isDelimiter c) = raw at *
  generalize back.dropWhile (fun c => !isDelimiter c) = rest at *
  subst hsplit
  have hafter := stands.across raw shifted (Nat.le_add_right ..) (Nat.le_add_right ..)
  have hstop : after.cursor.position = before.cursor.position + textSize raw := by
    rw [shifted.cursor]
    rfl
  have hslice := slice?_eq raw stands.left
  rw [← hstop] at hslice
  have hdepth : after.cursor.depth = frames.length + 1 := by
    rw [shifted.cursor]
    exact level
  rw [run_bind_ok (run_slice hslice), run_bind_ok (run_current hafter.left)]
  cases raw with
  | nil =>
    -- There is no name: the text is over, or a delimiter stands where the name should be.
    have hsame : after.cursor.position = before.cursor.position := hstop
    cases rest with
    | nil => exact .fail hafter rfl
    | cons c rest =>
      have delimiter := ends c rfl
      simp only [List.head?_cons, List.nil_append, ← hsame]
      exact agrees_nameless hafter delimiter fun h heq => more h (by simp [heq])
  | cons d raw =>
    -- The first letter is solid, so the name is not empty when it is trimmed.
    have hd : isBlank d = false := solid d rfl
    have hname : trim (d :: raw) ≠ [] := by
      rw [Ne, trim_eq_nil_iff, blanks_cons, hd]
      exact fun h => absurd h.1 Bool.false_ne_true
    have hshorter : rest.length ≤ (d :: raw ++ rest).length := by
      rw [List.length_append]
      exact Nat.le_add_left ..
    rw [conclude_name hd plain, ← hstop]
    simp only [if_neg hname, ← nameOf_reverse hd]
    exact (agrees_named inner hafter hdepth (Nat.le_trans hshorter fits) ends).wider hshorter

/-- A field joins the fields in front of it as in the reader, or has the name of one of them. -/
theorem agrees_join {α : Type} {field : Field} {start : Nat} {goOn : List Field → Descending α}
    {next : α → Nat → List Char → Except SyntaxError Shape}
    {goal : List Field → Except SyntaxError Shape} {depth : Nat}
    (stands : Stands text calls turns before back)
    (h : ∀ fields', addField fields field start = .ok fields' →
      Agrees text calls turns depth size (goal fields') next ((goOn fields').run before)) :
    Agrees text calls turns depth size (addField fields field start >>= goal) next
      ((join fields field start >>= goOn).run before) := by
  unfold join
  cases hadd : addField fields field start with
  | error error => exact .fault stands.counted rfl
  | ok fields' => exact h fields' hadd

/-- An object has a field once one is added. -/
theorem ne_nil_of_addField {field : Field} {start : Nat} {fields' : List Field}
    (h : addField fields field start = .ok fields') : fields' ≠ [] := by
  unfold addField at h
  split at h
  · cases h
  · cases h
    simp

/-- Fields are read as the reader does, from the start of the first to the end of their object.
The last turn may be one too many for what is left. -/
theorem agrees_fieldLoop (inner : Reads text limit size node) {budget : Nat}
    (stands : Stands text calls turns before back)
    (level : before.cursor.depth = frames.length + 1) (fits : back.length ≤ size)
    (turnsLeft : back.length < budget)
    (solid : ∀ c, back.head? = some c → isBlank c = false)
    (more : fields = [] → back.head? ≠ some Bracket.brace.closing) :
    Agrees text calls (turns + 1) (frames.length + 1) back.length
      (conclude limit (.inside (.fieldStart opened fields) frames) before.cursor.position back)
      (fun found => concludeShape limit frames (.object found))
      ((fieldLoop text node opened budget fields).run before) := by
  -- On the turns that are left. There are more of them than characters, so the loop never runs
  -- out of turns.
  induction budget generalizing fields before back with
  | zero => exact absurd turnsLeft (Nat.not_lt_zero _)
  | succ budget ih =>
    have hturn := stands.turn
    rw [fieldLoop, run_bind_ok (EStateM.run_modify ..), run_bind_ok run_position]
    refine (agrees_field inner hturn level fits solid more).bind ?_
    intro found mid rest hmid hdepth hrest
    refine agrees_join hmid fun fields' hadd => ?_
    refine .skip hmid hdepth trivial hrest ?_
    intro last rest' hsolid hlast hdepth' hrest'
    rw [run_bind_ok run_position, run_bind_ok (run_current hlast.left)]
    cases rest' with
    | nil => exact .fail hlast rfl
    | cons c rest' =>
      have hc : isBlank c = false := solid_of_eq_dropWhile hsolid rfl
      simp only [List.head?_cons]
      by_cases hcomma : c = ','
      · subst hcomma
        have hstep : (State.inside (.fieldEnd opened fields') frames).step limit
            last.cursor.position ',' = .ok (.inside (.fieldStart opened fields') frames) := by
          simp [State.step, Place.step, hc, endField]
        rw [if_pos rfl, run_bind_ok (run_advance hlast.left), conclude_of_step hstep]
        -- The comma pays for the next turn.
        have hnext : Stands text calls turns (last.pass ',') rest' :=
          hlast.pass (Nat.le_succ _) (Nat.le_refl _)
        have houtside : (State.inside (.fieldStart opened fields') frames).OutsideNames := trivial
        refine (Agrees.skip hnext hdepth' houtside (Nat.le_refl _) ?_).wider
          (Nat.le_of_succ_le hrest')
        intro after rest'' hsolid' hafter hdepth'' hrest''
        have hshorter : rest''.length < back.length := Nat.lt_of_le_of_lt hrest'' hrest'
        refine (ih hafter hdepth'' (by omega) (by omega) ?_ ?_).wider hrest''
        · intro d hd
          exact solid_of_eq_dropWhile hsolid' hd
        · exact fun h => absurd h (ne_nil_of_addField hadd)
      · rw [if_neg hcomma]
        by_cases hclose : c = Bracket.brace.closing
        · subst hclose
          rw [if_pos rfl]
          refine .close hlast hdepth' hrest' ?_ rfl
          simp [State.step, Place.step, hc, endField, hcomma]
        · rw [if_neg hclose]
          refine .fail hlast (conclude_of_refused ?_ rest')
          simp [State.step, Place.step, hc, endField, hcomma, hclose]

/-- Behind its bracket an object is read as the reader does. -/
theorem agrees_object (inner : Reads text limit size node) {c : Char}
    (stands : Stands text (calls + 1) (turns + 1) before (c :: back))
    (level : before.cursor.depth = frames.length + 1) (fits : back.length ≤ size) :
    Agrees text calls (turns + 1) (frames.length + 1) back.length
      (conclude limit (.inside (.fieldStart opened []) frames)
        (before.cursor.position + c.utf8Size) back)
      (concludeShape limit frames)
      ((object text node opened).run before) := by
  have hbehind : Stands text calls turns (before.pass c) back :=
    stands.pass (Nat.le_refl _) (Nat.le_refl _)
  have hlength : back.length < text.length := stands.left.length_le
  have houtside : (State.inside (.fieldStart opened []) frames).OutsideNames := trivial
  rw [object, run_bind_ok (run_advance stands.left)]
  refine .skip hbehind level houtside (Nat.le_refl _) ?_
  intro mid rest hsolid hmid hdepth hrest
  rw [run_bind_ok (run_current hmid.left)]
  -- The loop is the same for an object whose text is over and for one with fields.
  have hfields (more : rest.head? ≠ some Bracket.brace.closing) :
      Agrees text calls (turns + 1) (frames.length + 1) back.length
        (conclude limit (.inside (.fieldStart opened []) frames) mid.cursor.position rest)
        (fun found => concludeShape limit frames (.object found))
        ((fieldLoop text node opened text.length []).run mid) :=
    (agrees_fieldLoop inner hmid hdepth (Nat.le_trans hrest fits)
      (Nat.lt_of_le_of_lt hrest hlength) (fun d hd => solid_of_eq_dropWhile hsolid hd)
      fun _ => more).wider hrest
  cases rest with
  | nil => exact (hfields nofun).give
  | cons d rest =>
    simp only [List.head?_cons]
    by_cases hclose : d = Bracket.brace.closing
    · subst hclose
      have hdone : Stands text calls (turns + 1) mid (Bracket.brace.closing :: rest) :=
        hmid.across [] (.refl mid) (Nat.le_refl _) (Nat.le_succ _)
      rw [if_pos rfl]
      refine .close hdone hdepth hrest ?_ rfl
      simp [State.step, Place.step, isBlank_of_isDelimiter (isDelimiter_closing .brace)]
    · rw [if_neg hclose]
      exact (hfields (by simpa using hclose)).give

/-- The end of an array is read as the reader does, in any state that takes the closing bracket
and nothing else. -/
theorem agrees_arrayEnd {state : State} {shape : Shape}
    (stands : Stands text calls turns before back)
    (level : before.cursor.depth = frames.length + 1) (outside : state.OutsideNames)
    (step : ∀ position c, (back.dropWhile isBlank).head? = some c →
      state.step limit position c = if c = Bracket.square.closing then complete shape frames
        else .error (.unexpected "']'" c position))
    (finish : back.dropWhile isBlank = [] →
      state.finish = .error (.unclosed Bracket.square.opening opened)) :
    Agrees text calls turns (frames.length + 1) back.length
      (conclude limit state before.cursor.position back)
      (concludeShape limit frames)
      ((arrayEnd text opened shape).run before) := by
  refine .skip stands level outside (Nat.le_refl _) ?_
  intro mid rest hsolid hmid hdepth hrest
  rw [← hsolid] at step finish
  rw [run_bind_ok run_position, run_bind_ok (run_current hmid.left)]
  cases rest with
  | nil => exact .fail hmid (finish rfl)
  | cons c rest =>
    have hstep := step mid.cursor.position c rfl
    simp only [List.head?_cons]
    by_cases hclose : c = Bracket.square.closing
    · rw [if_pos hclose] at hstep ⊢
      exact .close hmid hdepth hrest hstep rfl
    · rw [if_neg hclose] at hstep ⊢
      exact .fail hmid (conclude_of_refused hstep rest)

/-- Behind its bracket an array is read as the reader does. -/
theorem agrees_array (inner : Reads text limit size node) {c : Char}
    (stands : Stands text (calls + 1) turns before (c :: back))
    (level : before.cursor.depth = frames.length + 1) (fits : back.length ≤ size) :
    Agrees text calls turns (frames.length + 1) back.length
      (conclude limit (.inside (.elementStart opened) frames)
        (before.cursor.position + c.utf8Size) back)
      (concludeShape limit frames)
      ((array text node opened).run before) := by
  have hbehind : Stands text calls turns (before.pass c) back :=
    stands.pass (Nat.le_refl _) (Nat.le_succ _)
  have houtside : (State.inside (.elementStart opened) frames).OutsideNames := trivial
  rw [array, run_bind_ok (run_advance stands.left)]
  refine .skip hbehind level houtside (Nat.le_refl _) ?_
  intro mid rest hsolid hmid hdepth hrest
  rw [run_bind_ok run_position, run_bind_ok (run_current hmid.left)]
  cases rest with
  | nil => exact .fail hmid rfl
  | cons d rest =>
    have hd : isBlank d = false := solid_of_eq_dropWhile hsolid rfl
    simp only [List.head?_cons]
    by_cases hclose : d = Bracket.square.closing
    · -- The end of the array is looked for from here on, and found at once.
      subst hclose
      rw [if_pos rfl]
      refine (agrees_arrayEnd hmid hdepth houtside ?_ ?_).wider hrest
      · rw [dropWhile_isBlank_cons hd]
        rintro position _ ⟨⟩
        simp [State.step, Place.step, hd]
      · rw [dropWhile_isBlank_cons hd]
        exact fun h => absurd h (List.cons_ne_nil _ _)
    · rw [if_neg hclose]
      cases hopen : Bracket.ofOpening? d with
      | none =>
        simp only [Option.isSome_none, Bool.false_eq_true, if_false]
        refine .fail hmid (conclude_of_refused ?_ rest)
        simp [State.step, Place.step, hd, hclose, hopen]
      | some b =>
        obtain rfl := eq_opening_of_ofOpening? hopen
        simp only [Option.isSome_some, if_true]
        -- The element ends in a state of its own, and only white space may come before the end.
        have hnode := inner calls turns mid _ _ b rest hmid
          (opens_elementStart limit opened frames) hdepth (Nat.lt_of_lt_of_le hrest fits)
        refine (hnode.wider hrest).bind ?_
        intro shape last rest' hlast hdepth' hrest'
        have houtside' : (State.inside (.elementEnd opened shape) frames).OutsideNames := trivial
        refine (agrees_arrayEnd hlast hdepth' houtside' ?_ fun _ => rfl).wider hrest'
        intro position c hc
        simp [State.step, Place.step, head_dropWhile_isBlank hc]

/-- A container is opened as the reader does, and behind it as many are open as before. -/
theorem agrees_nested {part : Descending Shape} {b : Bracket} {state : State}
    (stands : Stands text (calls + 1) turns before (b.opening :: back))
    (level : before.cursor.depth = frames.length) (opens : state.Opens limit frames)
    (inner : ∀ down : Scan, Stands text (calls + 1) turns down (b.opening :: back) →
      down.cursor.depth = frames.length + 1 →
      Agrees text calls turns (frames.length + 1) back.length
        (conclude limit (.inside (.behind before.cursor.position b) frames)
          (down.cursor.position + b.opening.utf8Size) back)
        (concludeShape limit frames) (part.run down)) :
    Agrees text calls turns frames.length (back.length + 1)
      (conclude limit state before.cursor.position (b.opening :: back))
      (concludeShape limit frames)
      ((nested limit before.cursor.position part).run before) := by
  rw [nested, run_bind_ok (EStateM.run_get _), conclude_cons, opens, openContainer, level]
  by_cases room : frames.length < limit
  · rw [if_neg (Nat.not_le.mpr room), if_pos room]
    have hdepth : (before.move before.cursor.down).cursor.depth = frames.length + 1 :=
      congrArg (· + 1) level
    have hinner := inner (before.move before.cursor.down)
      ⟨stands.left, stands.calls, stands.turns, stands.openings⟩ hdepth
    show Agrees text calls turns frames.length (back.length + 1) _ _ (within part before)
    unfold within
    -- The depth is put back whether the part gives a shape or stops.
    generalize part.run (before.move before.cursor.down) = result at hinner
    cases hinner with
    | ok stands' level' shorter same =>
      refine .ok ⟨stands'.left, stands'.calls, stands'.turns, stands'.openings⟩ ?_
        (Nat.le_succ_of_le shorter) same
      exact congrArg (· - 1) level'
    | fault counted same => exact .fault ⟨counted.calls, counted.turns, counted.openings⟩ same
  · rw [if_pos (Nat.le_of_not_lt room), if_neg room]
    have hbehind : Stands text calls turns (before.pass b.opening) back :=
      stands.pass (Nat.le_refl _) (Nat.le_succ _)
    exact .fault ⟨hbehind.counted.calls, hbehind.counted.turns, hbehind.counted.openings⟩ rfl

end

/-- A shape is read as the reader does if there are as many levels as characters. -/
theorem reads_node (text : List Char) (limit levels : Nat) :
    Reads text limit levels (node text limit levels) := by
  induction levels with
  | zero => exact fun _ _ _ _ _ _ _ _ _ _ fits => absurd fits (Nat.not_lt_zero _)
  | succ levels ih =>
    intro calls turns before state frames b back stands opens level fits
    have hcall := stands.call
    rw [node, run_bind_ok (EStateM.run_modify ..), run_bind_ok run_position,
      run_bind_ok (run_current hcall.left)]
    simp only [List.head?_cons, Bracket.ofOpening?_opening]
    have fits : back.length ≤ levels := Nat.le_of_lt_succ fits
    cases b with
    | brace =>
      -- The bracket pays for a last turn that finds no field.
      have hturns : 0 < turns := Nat.lt_of_lt_of_le (Nat.succ_pos _) stands.turns
      obtain ⟨spare, rfl⟩ := Nat.exists_eq_add_one.mpr hturns
      refine agrees_nested hcall level opens fun down hdown hdepth => ?_
      exact agrees_object ih hdown hdepth fits
    | square =>
      refine agrees_nested hcall level opens fun down hdown hdepth => ?_
      exact agrees_array ih hdown hdepth fits

/-- A whole text is read as the reader does. -/
theorem agrees_read (source : String) (limit : Nat) :
    Agrees source.toList source.toList.length source.toList.length 0 source.toList.length
      (Shape.parse source limit) (fun shape _ _ => .ok shape) (read source limit) := by
  show Agrees _ _ _ _ _ (conclude limit .start 0 source.toList) _
    ((root source.toList limit).run Scan.start)
  generalize source.toList = text
  have hstart : Stands text text.length text.length Scan.start text :=
    ⟨.start text, Nat.le_of_eq (Nat.zero_add _), Nat.le_of_eq (Nat.zero_add _), nofun⟩
  have houtside : State.start.OutsideNames := trivial
  refine .skip hstart rfl houtside (Nat.le_refl _) ?_
  intro mid rest hsolid hmid hdepth hrest
  rw [run_bind_ok run_position, run_bind_ok (run_current hmid.left)]
  cases rest with
  | nil => exact .fail hmid rfl
  | cons c rest =>
    have hc : isBlank c = false := solid_of_eq_dropWhile hsolid rfl
    simp only [List.head?_cons]
    cases hopen : Bracket.ofOpening? c with
    | none =>
      simp only [Option.isSome_none, Bool.false_eq_true, if_false]
      refine .fail hmid (conclude_of_refused ?_ rest)
      simp [State.step, hc, hopen]
    | some b =>
      obtain rfl := eq_opening_of_ofOpening? hopen
      simp only [Option.isSome_some, if_true]
      -- As many levels as characters are enough for all shapes inside.
      have hnode := reads_node text limit text.length _ _ mid .start [] b rest hmid
        (opens_start limit) hdepth hrest
      refine (hnode.wider hrest).bind ?_
      intro shape last rest' hlast hdepth' hrest'
      have houtside' : (State.done shape).OutsideNames := trivial
      refine .skip hlast hdepth' houtside' hrest' ?_
      intro after rest'' hsolid' hafter hdepth'' hrest''
      rw [run_bind_ok run_position, run_bind_ok (run_current hafter.left)]
      cases rest'' with
      | nil => exact .ok hafter hdepth'' hrest'' rfl
      | cons d rest'' =>
        have hd : isBlank d = false := solid_of_eq_dropWhile hsolid' rfl
        refine .fail hafter (conclude_of_refused ?_ rest'')
        simp [State.step, hd]

/-! ### The whole descent -/

/-- The scan at the end of a descent, however it ends. -/
def scanned (source : String) (limit : Nat) : Scan :=
  match read source limit with
  | .ok _ after => after
  | .error _ after => after

/-- The whole descent moves its cursor with discipline. -/
theorem kept_scanned (source : String) (limit : Nat) :
    Kept source limit Scan.start (scanned source limit) := by
  have hstart : Scan.start.cursor.Sound source limit :=
    .of_leftAt (.start source.toList) (Nat.zero_le limit)
  have hkeeps : Keeps source limit Scan.start Anywhere (read source limit) := keeps_root hstart
  unfold scanned
  generalize read source limit = result at hkeeps ⊢
  cases hkeeps with
  | ok kept => exact kept
  | error kept => exact kept

/-- All calls and all turns of the whole descent are paid for. -/
theorem counted_scanned (source : String) (limit : Nat) :
    Counted source.toList source.toList.length source.toList.length (scanned source limit) := by
  have hagrees := agrees_read source limit
  unfold scanned
  generalize read source limit = result at hagrees ⊢
  cases hagrees with
  | ok stands => exact stands.counted
  | fault counted => exact counted

/-- A descent reads what the reader reads. -/
theorem answer_eq_parse (source : String) (limit : Nat) :
    answer source limit = (Shape.parse source limit).mapError .fault := by
  have hagrees := agrees_read source limit
  unfold answer
  generalize read source limit = result at hagrees ⊢
  cases hagrees with
  | ok _ _ _ same =>
    rw [same]
    rfl
  | fault _ same =>
    rw [same]
    rfl

/-- A descent reads a text with discipline. -/
structure Orderly (source : String) (limit : Nat) : Prop where
  /-- It reads what the reader reads. -/
  answer_eq : answer source limit = (Shape.parse source limit).mapError .fault
  /-- The text is never cut inside a character or behind its end. -/
  cuts : answer source limit ≠ .error .badSlice
  /-- Loops and calls end before they took as many turns as the text has characters. -/
  ends : answer source limit ≠ .error .exhausted
  /-- The cursor is never behind the end of the text or inside a character, and no more containers
  are open than the limit allows. -/
  sound : ∀ cursor ∈ (scanned source limit).trail, cursor.Sound source limit
  /-- The cursor never goes back. -/
  onward : (scanned source limit).trail.Pairwise (·.position ≤ ·.position)
  /-- No call leaves a container that was open before. It ends with as many open as before, and
  further on if it gives something. -/
  node : ∀ levels, Disciplined source limit (node source.toList limit levels)
  /-- So does a call for an object, an array or a field. -/
  object : ∀ levels opened, Disciplined source limit
    (object source.toList (Descent.node source.toList limit levels) opened)
  array : ∀ levels opened, Disciplined source limit
    (array source.toList (Descent.node source.toList limit levels) opened)
  field : ∀ levels opened, Disciplined source limit
    (field source.toList (Descent.node source.toList limit levels) opened)
  /-- Going one container deeper and back makes no difference to this, whatever happens there. -/
  nested : ∀ opened part, Disciplined source limit part →
    Disciplined source limit (nested limit opened part)
  /-- Loops over fields take no more turns than the text has characters. -/
  turns : (scanned source limit).turns ≤ source.toList.length
  /-- Shapes are called for no more often than the text has characters. -/
  calls : (scanned source limit).calls.length ≤ source.toList.length
  /-- Where a shape is called for is an opening bracket, not another character and not the end. -/
  openings : ∀ position ∈ (scanned source limit).calls, OpensAt source.toList position

/-- Every text is read with discipline, under every limit. -/
theorem orderly (source : String) (limit : Nat) : Orderly source limit := by
  obtain ⟨⟨passed, htrail, hmoves⟩, -⟩ := kept_scanned source limit
  obtain ⟨hpassed, honward⟩ := hmoves.forall_passed
  have hcounted := counted_scanned source limit
  have hanswer := answer_eq_parse source limit
  -- The reader gives no other errors than faults, and the descent answers what the reader does.
  have hfault (halt : Halt) (hother : ∀ error, halt ≠ .fault error) :
      answer source limit ≠ .error halt := by
    rw [hanswer]
    cases Shape.parse source limit with
    | ok shape => exact nofun
    | error error => exact fun h => hother error (Except.error.inj h).symm
  have hstart : Scan.start.cursor.Sound source limit :=
    .of_leftAt (.start source.toList) (Nat.zero_le limit)
  constructor
  case answer_eq => exact hanswer
  case cuts => exact hfault .badSlice nofun
  case ends => exact hfault .exhausted nofun
  case sound =>
    rw [htrail]
    exact List.forall_mem_cons.mpr ⟨hstart, fun cursor h => (hpassed cursor h).1⟩
  case onward =>
    rw [htrail]
    exact honward
  case node => exact disciplined_node
  case object => exact fun levels => disciplined_object (disciplined_node levels)
  case array => exact fun levels => disciplined_array (disciplined_node levels)
  case field => exact fun levels => disciplined_field (disciplined_node levels)
  case nested => exact fun opened _ inner => disciplined_nested inner opened
  case turns => exact hcounted.turns
  case calls => exact hcounted.calls
  case openings => exact hcounted.openings

/-- The first letter takes two bytes, and two containers are open at most. -/
example : (scanned "{é[]}" 2).trail =
    [⟨0, 0⟩, ⟨0, 1⟩, ⟨1, 1⟩, ⟨3, 1⟩, ⟨3, 2⟩, ⟨4, 2⟩, ⟨5, 2⟩, ⟨5, 1⟩, ⟨6, 1⟩, ⟨6, 0⟩] := by
  decide +kernel

end Shape.Descent

end DocShape
