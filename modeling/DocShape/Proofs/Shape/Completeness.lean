import DocShape.Proofs.Shape.Soundness

/-!
# `DocShape.Proofs.Shape.Completeness`: every text of a shape that fits is accepted

`Leads` says where a text leads from a state, wherever the text stands. The places that the reader
remembers are offsets, so the state behind a text is known only up to them: behind a field, for
example, it is one of those of `FieldDone`.

The lemmas follow the grammar, one for each of its relations. A shape is read from any state that
opens containers, and ends where `complete` hands it. Names have to be distinct, or else the
lemmas are `lenient`: reading may then also end at a name that was given before. There are two
results:

* `parse_eq_ok_iff`: together with the other direction, the texts that are read are those of the
  shapes that fit.
* `parse_of_root`: a text of the grammar whose brackets fit has no other fault than such a name.
-/

set_option autoImplicit false

namespace DocShape

namespace Shape

namespace Reader

open Grammar

/-- A part of a reading gave something with a property. A lenient one may also have stopped at a
name that was given before. -/
def Arrives {α : Type} (lenient : Prop) (post : α → Prop) : Except SyntaxError α → Prop
  | .ok found => post found
  | .error error => lenient ∧ ∃ name start, error = .duplicateField name start

/-- What follows a part that arrives goes on from what it gave. -/
theorem Arrives.bind {α β : Type} {lenient : Prop} {middle : α → Prop} {post : β → Prop}
    {first : Except SyntaxError α} {next : α → Except SyntaxError β}
    (arrives : Arrives lenient middle first)
    (h : ∀ found, middle found → Arrives lenient post (next found)) :
    Arrives lenient post (first >>= next) := by
  cases first with
  | ok found => exact h found arrives
  | error error => exact arrives

/-- A part that arrives with one property arrives with all that follow from it. -/
theorem Arrives.imp {α : Type} {lenient : Prop} {post other : α → Prop}
    {result : Except SyntaxError α} (arrives : Arrives lenient post result)
    (h : ∀ found, post found → other found) : Arrives lenient other result := by
  cases result with
  | ok found => exact h found arrives
  | error error => exact arrives

/-- A part that arrives and is not lenient gives a result. -/
theorem Arrives.exists_ok {α : Type} {post : α → Prop} {result : Except SyntaxError α}
    (arrives : Arrives False post result) : ∃ found, result = .ok found ∧ post found := by
  cases result with
  | ok found => exact ⟨found, rfl, arrives⟩
  | error error => exact absurd arrives.1 not_false

/-- Wherever a text stands, it leads from a state to one with a property. -/
def Leads (lenient : Prop) (limit : Nat) (state : State) (cs : List Char)
    (post : State → Prop) : Prop :=
  ∀ offset, Arrives lenient post (state.run limit (locate offset cs))

/-- The number of bytes of a text. -/
def textSize : List Char → Nat
  | [] => 0
  | c :: cs => c.utf8Size + textSize cs

/-- The second of two texts stands behind the bytes of the first one. -/
theorem locate_append (offset : Nat) (cs ds : List Char) :
    locate offset (cs ++ ds) = locate offset cs ++ locate (offset + textSize cs) ds := by
  induction cs generalizing offset with
  | nil => rfl
  | cons c cs ih =>
    rw [List.cons_append, locate, ih, locate, List.cons_append, textSize, Nat.add_assoc]

namespace Leads

variable {lenient : Prop} {limit : Nat} {state : State} {cs ds : List Char}
  {post middle : State → Prop}

/-- The empty text leads to where the reader is. -/
theorem nil (h : post state) : Leads lenient limit state [] post :=
  fun _ => h

/-- A text leads to where it leads once its first character was read. -/
theorem cons {c : Char}
    (h : ∀ offset, Arrives lenient (fun next => Leads lenient limit next cs post)
      (state.step limit offset c)) :
    Leads lenient limit state (c :: cs) post := by
  intro offset
  exact (h offset).bind fun next hnext => hnext (offset + c.utf8Size)

/-- A text that leads to one property leads to all that follow from it. -/
theorem imp {other : State → Prop} (leads : Leads lenient limit state cs post)
    (h : ∀ next, post next → other next) : Leads lenient limit state cs other :=
  fun offset => (leads offset).imp h

/-- The case of a step that goes on. -/
theorem cons_ok {c : Char}
    (h : ∀ offset, ∃ next, state.step limit offset c = .ok next ∧
      Leads lenient limit next cs post) :
    Leads lenient limit state (c :: cs) post := by
  refine cons fun offset => ?_
  obtain ⟨next, hstep, hnext⟩ := h offset
  rw [hstep]
  exact hnext

/-- Two texts in a row lead on from where the first one leads. -/
theorem append (front : Leads lenient limit state cs middle)
    (back : ∀ next, middle next → Leads lenient limit next ds post) :
    Leads lenient limit state (cs ++ ds) post := by
  intro offset
  rw [locate_append, State.run_append]
  exact (front offset).bind fun next hnext => back next hnext (offset + textSize cs)

/-- A property that each blank keeps is kept by white space. -/
theorem blanks {ws : List Char} (blank : Blanks ws)
    (keep : ∀ state offset c, post state → isBlank c = true →
      ∃ next, state.step limit offset c = .ok next ∧ post next)
    (h : post state) : Leads lenient limit state ws post := by
  induction ws generalizing state with
  | nil => exact nil h
  | cons c ws ih =>
    obtain ⟨hc, hws⟩ := blanks_cons.mp blank
    refine cons_ok fun offset => ?_
    obtain ⟨next, hstep, hnext⟩ := keep state offset c h hc
    exact ⟨next, hstep, ih hws hnext⟩

/-- White space leads from a state back to it if each blank does. -/
theorem blanks_self {ws : List Char} (blank : Blanks ws)
    (stay : ∀ offset c, isBlank c = true → state.step limit offset c = .ok state) :
    Leads lenient limit state ws (· = state) := by
  refine blanks blank ?_ rfl
  rintro _ offset c rfl hc
  exact ⟨_, stay offset c hc, rfl⟩

end Leads

/-! ### Single steps -/

/-- From the state, an opening bracket opens a container inside the frames. -/
def State.Opens (limit : Nat) (frames : List Frame) (state : State) : Prop :=
  ∀ offset b, state.step limit offset b.opening = openContainer limit offset b frames

/-- The first bracket of a text opens a container inside nothing. -/
theorem opens_start (limit : Nat) : State.start.Opens limit [] := by
  intro offset b
  simp [State.step, isBlank_of_isDelimiter (isDelimiter_opening b)]

/-- A bracket behind a name opens the container of that field. -/
theorem opens_fieldName (limit opened start : Nat) (fields : List Field) (letters : List Char)
    (frames : List Frame) :
    (State.inside (.fieldName opened fields start letters) frames).Opens limit
      (.field opened fields start (nameOf letters) :: frames) := by
  intro offset b
  simp [State.step, Place.step, isDelimiter_opening]

/-- A bracket at the start of an array opens its element. -/
theorem opens_elementStart (limit opened : Nat) (frames : List Frame) :
    (State.inside (.elementStart opened) frames).Opens limit (.element opened :: frames) := by
  intro offset b
  have hclose := opening_ne_closing b .square
  simp [State.step, Place.step, isBlank_of_isDelimiter (isDelimiter_opening b), hclose]

/-- White space next to a bracket or a comma changes nothing. It does inside a name. -/
theorem blank_stays {limit : Nat} {place : Place} {frames : List Frame}
    (hplace : ∀ opened fields start letters, place ≠ .fieldName opened fields start letters)
    (offset : Nat) (c : Char) (hc : isBlank c = true) :
    (State.inside place frames).step limit offset c = .ok (.inside place frames) := by
  cases place with
  | fieldName opened fields start letters => exact absurd rfl (hplace opened fields start letters)
  | _ => simp [State.step, Place.step, hc]

/-- The states behind a field, which joined those in front of it. The name of a field without
structure is still being read, and that it is new is found out later. -/
inductive FieldDone (lenient : Prop) (opened : Nat) (fields : List Field) (frames : List Frame) :
    State → Prop where
  | name {earlier : List Field} {start : Nat} {letters : List Char}
    (add : Arrives lenient (· = fields) (addField earlier (.leaf (nameOf letters)) start)) :
    FieldDone lenient opened fields frames
      (.inside (.fieldName opened earlier start letters) frames)
  | shape : FieldDone lenient opened fields frames (.inside (.fieldEnd opened fields) frames)

namespace FieldDone

variable {lenient : Prop} {opened : Nat} {fields : List Field} {frames : List Frame}

/-- White space behind a field belongs to it. -/
theorem blank {limit : Nat} (state : State) (offset : Nat) (c : Char)
    (done : FieldDone lenient opened fields frames state) (hc : isBlank c = true) :
    ∃ next, state.step limit offset c = .ok next ∧
      FieldDone lenient opened fields frames next := by
  cases done with
  | @name earlier start letters add =>
    refine ⟨.inside (.fieldName opened earlier start (c :: letters)) frames, ?_, .name ?_⟩
    · simp [State.step, Place.step, isDelimiter_of_isBlank hc]
    · rwa [nameOf, trimEnd_cons_of_blank hc]
  | shape => exact ⟨_, by simp [State.step, Place.step, hc], .shape⟩

/-- A field ends at a comma and at the end of its object. -/
theorem delimiter {limit offset : Nat} {c : Char} {state : State} {post : State → Prop}
    (done : FieldDone lenient opened fields frames state) (hc : EndsField c)
    (ends : Arrives lenient post (endField opened fields frames offset c)) :
    Arrives lenient post (state.step limit offset c) := by
  have hdelimiter := hc.isDelimiter
  have hsolid := isBlank_of_isDelimiter hdelimiter
  have hclosed : Bracket.ofOpening? c = none := by rcases hc with rfl | rfl <;> decide
  cases done with
  | name add =>
    -- The name is compared first, and what ends the field is looked at behind that.
    simp only [State.step, Place.step, hdelimiter, hclosed, if_true]
    refine add.bind ?_
    rintro _ rfl
    exact ends
  | shape =>
    simp only [State.step, Place.step, hsolid, Bool.false_eq_true, if_false]
    exact ends

end FieldDone

/-- A name that no earlier field has can be added. -/
theorem addField_arrives {lenient : Prop} {fields : List Field} {field : Field}
    (new : lenient ∨ ∀ earlier ∈ fields, earlier.name ≠ field.name) (start : Nat) :
    Arrives lenient (· = fields ++ [field]) (addField fields field start) := by
  unfold addField
  split
  · next taken =>
    -- An earlier field has the name, so the reading has to be lenient.
    refine ⟨new.resolve_right fun hnew => ?_, field.name, start, rfl⟩
    obtain ⟨earlier, hmem, heq⟩ := List.any_eq_true.mp taken
    exact hnew earlier hmem (by simpa using heq)
  · exact rfl

/-! ### Names -/

/-- The letters of a name are collected. -/
theorem leads_letters (lenient : Prop) (limit opened start : Nat) (fields : List Field)
    (frames : List Frame) {cs : List Char} (plain : ∀ c ∈ cs, isDelimiter c = false)
    (letters : List Char) :
    Leads lenient limit (.inside (.fieldName opened fields start letters) frames) cs
      (· = .inside (.fieldName opened fields start (cs.reverse ++ letters)) frames) := by
  induction cs generalizing letters with
  | nil => exact .nil rfl
  | cons c cs ih =>
    obtain ⟨hc, hcs⟩ := List.forall_mem_cons.mp plain
    refine .cons_ok fun offset =>
      ⟨.inside (.fieldName opened fields start (c :: letters)) frames, ?_, ?_⟩
    · simp [State.step, Place.step, hc]
    · rw [List.reverse_cons, List.append_assoc]
      exact ih hcs (c :: letters)

/-- A raw name is read as a name. -/
theorem leads_rawName (lenient : Prop) (limit opened : Nat) (fields : List Field)
    (frames : List Frame) {raw : List Char} (name : RawName raw) :
    Leads lenient limit (.inside (.fieldStart opened fields) frames) raw fun next =>
      ∃ start letters, next = .inside (.fieldName opened fields start letters) frames ∧
        nameOf letters = String.ofList (trim raw) := by
  obtain ⟨ws, blank, hsplit⟩ := exists_blanks_append raw
  -- The first letter is the first that is not blank. There is one, since trimming leaves some.
  have hne : raw.dropWhile isBlank ≠ [] := by
    intro h
    exact name.solid (trim_eq_nil_iff.mpr (dropWhile_isBlank_eq_nil_iff.mp h))
  obtain ⟨c, tail, hcons⟩ := List.exists_cons_of_ne_nil hne
  have solid : isBlank c = false := @head_dropWhile_isBlank raw c (by rw [hcons]; rfl)
  rw [hcons] at hsplit
  have plain : ∀ d ∈ c :: tail, isDelimiter d = false := fun d hd =>
    name.plain d (by rw [hsplit]; exact List.mem_append_right ws hd)
  obtain ⟨hc, htail⟩ := List.forall_mem_cons.mp plain
  have hname : nameOf (c :: tail).reverse = String.ofList (trim raw) := by
    rw [hsplit, trim_append_of_blanks blank, trim_cons_of_solid solid]
    rfl
  rw [hsplit] at hname ⊢
  refine (Leads.blanks_self blank
    (@blank_stays limit (.fieldStart opened fields) frames nofun)).append ?_
  rintro _ rfl
  refine .cons_ok fun offset => ⟨.inside (.fieldName opened fields offset [c]) frames, ?_, ?_⟩
  · have hclose : c ≠ Bracket.brace.closing := by
      rintro rfl
      cases hc
    simp [State.step, Place.step, solid, hc, hclose]
  · refine (leads_letters lenient limit opened offset fields frames htail [c]).imp ?_
    rintro _ rfl
    exact ⟨offset, _, rfl, by rw [← List.reverse_cons]; exact hname⟩

/-! ### Shapes -/

/-- White space, a shape and white space again lead where the shape is handed to, if blanks are
skipped in front of it and behind it. -/
theorem Leads.surround {lenient : Prop} {limit : Nat} {state next : State}
    {before cs after : List Char} (blank : Blanks before) (blank' : Blanks after)
    (stay : ∀ offset c, isBlank c = true → state.step limit offset c = .ok state)
    (stay' : ∀ offset c, isBlank c = true → next.step limit offset c = .ok next)
    (inner : Leads lenient limit state cs (· = next)) :
    Leads lenient limit state (before ++ cs ++ after) (· = next) := by
  rw [List.append_assoc]
  refine (Leads.blanks_self blank stay).append ?_
  rintro _ rfl
  refine inner.append ?_
  rintro _ rfl
  exact Leads.blanks_self blank' stay'

/-- A text in brackets leads from a state that opens containers to where the container is handed
to, if the text leads to a state that the closing bracket hands on. -/
theorem Leads.bracketed {lenient : Prop} {limit : Nat} {frames : List Frame} {state : State}
    {cs : List Char} {inside : Nat → State → Prop} {post : State → Prop}
    (opens : state.Opens limit frames) (room : frames.length < limit) (b : Bracket)
    (inner : ∀ opened,
      Leads lenient limit (.inside (.behind opened b) frames) cs (inside opened))
    (close : ∀ opened last offset, inside opened last →
      Arrives lenient post (last.step limit offset b.closing)) :
    Leads lenient limit state (b.opening :: (cs ++ [b.closing])) post := by
  refine .cons_ok fun offset => ⟨.inside (.behind offset b) frames, ?_, ?_⟩
  · rw [opens, openContainer, if_pos room]
  · refine (inner offset).append fun last hlast => ?_
    exact .cons fun offset' => (close offset last offset' hlast).imp fun _ => .nil

/-- No field in front of another has its name. -/
theorem new_of_nodup {earlier rest : List Field} {field : Field}
    (nodup : ((earlier ++ field :: rest).map Field.name).Nodup) :
    ∀ other ∈ earlier, other.name ≠ field.name := by
  intro other hother heq
  rw [List.map_append, List.nodup_append] at nodup
  exact nodup.2.2 _ (List.mem_map_of_mem hother) _ List.mem_cons_self heq

mutual

/-- The text of a shape that fits leads to where the shape is handed to. -/
theorem leads_node {lenient : Prop} {limit : Nat} {cs : List Char} {shape : Shape}
    {frames : List Frame} {state : State} {post : State → Prop}
    (opens : state.Opens limit frames) (distinct : lenient ∨ shape.DistinctNames)
    (room : frames.length + shape.depth ≤ limit)
    (hand : Arrives lenient post (complete shape frames)) :
    Node cs shape → Leads lenient limit state cs post
  -- One case for each production of the grammar. Between the brackets stands white space, fields
  -- or an element, and behind them the shape is handed on.
  | .emptyObject blank => by
    rw [Shape.depth] at room
    have hinner (opened : Nat) := @Leads.blanks_self lenient limit _ _ blank
      (@blank_stays limit (.fieldStart opened []) frames nofun)
    refine .bracketed opens (by omega) .brace hinner ?_
    rintro opened _ offset rfl
    exact hand
  | .object inner => by
    rw [Shape.depth] at room
    have hinner (opened : Nat) := @leads_fields lenient limit opened _ _ [] frames
      (distinct.imp_right And.left) (distinct.imp_right And.right) (by omega) inner
    refine .bracketed opens (by omega) .brace hinner fun opened last offset hlast => ?_
    exact hlast.delimiter (.inr rfl) hand
  | .emptyArray blank => by
    rw [Shape.depth] at room
    have hinner (opened : Nat) := @Leads.blanks_self lenient limit _ _ blank
      (@blank_stays limit (.elementStart opened) frames nofun)
    refine .bracketed opens (by omega) .square hinner ?_
    rintro opened _ offset rfl
    exact hand
  | @Node.arrayOf _ _ _ element blank inner blank' => by
    rw [Shape.depth] at room
    -- The element is handed to its array, which then waits for its closing bracket.
    have hinner (opened : Nat) :=
      (@leads_node lenient limit _ element _ _ (· = .inside (.elementEnd opened element) frames)
        (opens_elementStart limit opened frames) (distinct.imp_right distinctNames_arrayOf.mp)
        (by rw [List.length_cons]; omega) rfl inner).surround
      blank blank' (@blank_stays limit (.elementStart opened) frames nofun)
      (@blank_stays limit (.elementEnd opened element) frames nofun)
    refine .bracketed opens (by omega) .square hinner ?_
    rintro opened _ offset rfl
    exact hand

/-- The text of a field that fits behind others leads behind the field. -/
theorem leads_oneField {lenient : Prop} {limit opened : Nat} {cs : List Char} {field : Field}
    {earlier : List Field} {frames : List Frame}
    (new : lenient ∨ ∀ other ∈ earlier, other.name ≠ field.name)
    (distinct : lenient ∨
      Field.EachInside (fun fields => (fields.map Field.name).Nodup) [field])
    (room : frames.length + 1 + Field.deepest [field] ≤ limit) :
    OneField cs field → Leads lenient limit (.inside (.fieldStart opened earlier) frames) cs
      (FieldDone lenient opened (earlier ++ [field]) frames)
  | .leaf name => by
    refine (leads_rawName lenient limit opened earlier frames name).imp ?_
    rintro _ ⟨start, letters, rfl, hname⟩
    refine .name ?_
    rw [hname]
    exact addField_arrives new start
  | @OneField.nested raw cs shape name inner => by
    refine (leads_rawName lenient limit opened earlier frames name).append ?_
    rintro _ ⟨start, letters, rfl, hname⟩
    rw [Field.deepest, Field.deepest] at room
    -- The offset of the name is known only once it is read, so the shape comes after it.
    refine leads_node (opens_fieldName limit opened start earlier letters frames)
      (distinct.imp_right And.left) (by rw [List.length_cons]; omega) ?_ inner
    rw [complete, hname]
    refine (addField_arrives new start).bind ?_
    rintro _ rfl
    exact .shape

/-- The white space around a field makes no difference. -/
theorem leads_padded {lenient : Prop} {limit opened : Nat} {cs : List Char} {field : Field}
    {earlier : List Field} {frames : List Frame}
    (new : lenient ∨ ∀ other ∈ earlier, other.name ≠ field.name)
    (distinct : lenient ∨
      Field.EachInside (fun fields => (fields.map Field.name).Nodup) [field])
    (room : frames.length + 1 + Field.deepest [field] ≤ limit) :
    Padded cs field → Leads lenient limit (.inside (.fieldStart opened earlier) frames) cs
      (FieldDone lenient opened (earlier ++ [field]) frames)
  | .mk blank inner blank' => by
    rw [List.append_assoc]
    refine (Leads.blanks_self blank
      (@blank_stays limit (.fieldStart opened earlier) frames nofun)).append ?_
    rintro _ rfl
    refine (leads_oneField new distinct room inner).append fun last hlast => ?_
    exact .blanks blank' FieldDone.blank hlast

/-- The text of fields that fit behind others leads behind the last of them. -/
theorem leads_fields {lenient : Prop} {limit opened : Nat} {cs : List Char}
    {fields earlier : List Field} {frames : List Frame}
    (nodup : lenient ∨ ((earlier ++ fields).map Field.name).Nodup)
    (distinct : lenient ∨ Field.EachInside (fun fields => (fields.map Field.name).Nodup) fields)
    (room : frames.length + 1 + Field.deepest fields ≤ limit) :
    Fields cs fields → Leads lenient limit (.inside (.fieldStart opened earlier) frames) cs
      (FieldDone lenient opened (earlier ++ fields) frames)
  | .one head => by
    exact leads_padded (nodup.imp_right new_of_nodup) distinct room head
  | .more head tail => by
    rw [← List.singleton_append, Field.deepest_append] at room
    rw [← List.singleton_append, Field.eachInside_append] at distinct
    refine (leads_padded (nodup.imp_right new_of_nodup) (distinct.imp_right And.left) (by omega)
      head).append fun last hlast => ?_
    -- The comma starts the next field, behind the ones that are there by now.
    rw [List.append_cons] at nodup ⊢
    refine .cons fun offset => hlast.delimiter (.inl rfl) ?_
    exact leads_fields nodup (distinct.imp_right And.right) (by omega) tail

end

/-- The text of a shape that fits leads from the start to that shape. -/
theorem run_of_root {lenient : Prop} {limit : Nat} {cs : List Char} {shape : Shape}
    (root : Root cs shape) (distinct : lenient ∨ shape.DistinctNames)
    (room : shape.depth ≤ limit) :
    Arrives lenient (· = .done shape) (State.start.run limit (locate 0 cs)) := by
  obtain ⟨blank, inner, blank'⟩ := root
  have hinner := @leads_node lenient limit _ shape _ _ (· = .done shape) (opens_start limit)
    distinct (by rw [List.length_nil]; omega) rfl inner
  exact hinner.surround blank blank' (fun offset c hc => by simp [State.step, hc])
    (fun offset c hc => by simp [State.step, hc]) 0

end Reader

/-- The texts that are read are those of the shapes that fit. -/
theorem parse_eq_ok_iff {source : String} {limit : Nat} {shape : Shape} :
    Shape.parse source limit = .ok shape ↔
      Grammar.Root source.toList shape ∧ shape.DistinctNames ∧ shape.depth ≤ limit := by
  refine ⟨sound_of_parse, ?_⟩
  rintro ⟨root, distinct, room⟩
  obtain ⟨_, hrun, rfl⟩ := (Reader.run_of_root root (.inr distinct) room).exists_ok
  rw [Shape.parse, hrun]
  rfl

/-- A text of a shape whose brackets fit is read, or a name in it is given twice. -/
theorem parse_of_root {source : String} {limit : Nat} {shape : Shape}
    (root : Grammar.Root source.toList shape) (room : shape.depth ≤ limit) :
    Reader.Arrives True (· = shape) (Shape.parse source limit) := by
  refine (Reader.run_of_root root (.inl trivial) room).bind ?_
  rintro _ rfl
  rfl

end Shape

end DocShape
