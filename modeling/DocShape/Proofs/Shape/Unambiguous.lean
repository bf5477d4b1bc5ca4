import DocShape.Proofs.Shape.Grammar

/-!
# `DocShape.Proofs.Shape.Unambiguous`: a text has one shape

Two derivations of one text may place the white space around a name differently, inside the raw
name or next to it. The shape is the same. The proof goes along the first derivation and compares
two texts that go on in any way: they part at the same delimiter, because a raw name and white
space hold none. `Grammar.Root.unique` is the result.
-/

set_option autoImplicit false

namespace DocShape

namespace Grammar

/-- Two runs of letters of one kind, each ended by a letter that is not of it, end at the same
place. -/
theorem split_unique {p : Char → Bool} {as bs cs ds : List Char} {a b : Char}
    (has : ∀ c ∈ as, p c = true) (hbs : ∀ c ∈ bs, p c = true) (ha : p a = false)
    (hb : p b = false) (h : as ++ a :: cs = bs ++ b :: ds) : as = bs ∧ a = b ∧ cs = ds := by
  induction as generalizing bs with
  | nil =>
    cases bs with
    | nil => exact ⟨rfl, List.cons.inj h⟩
    | cons e bs =>
      -- The letter that ends the first run would be inside the second.
      have he := hbs e List.mem_cons_self
      rw [← (List.cons.inj h).1, ha] at he
      cases he
  | cons c as ih =>
    cases bs with
    | nil =>
      have hc := has c List.mem_cons_self
      rw [(List.cons.inj h).1, hb] at hc
      cases hc
    | cons e bs =>
      obtain ⟨rfl, htail⟩ := List.cons.inj h
      obtain ⟨rfl, hrest⟩ := ih (fun d hd => has d (List.mem_cons_of_mem _ hd))
        (fun d hd => hbs d (List.mem_cons_of_mem _ hd)) htail
      exact ⟨rfl, hrest⟩

/-- Letters that are no delimiters end at the same delimiter. -/
theorem plain_unique {as bs cs ds : List Char} {a b : Char}
    (has : ∀ c ∈ as, isDelimiter c = false) (hbs : ∀ c ∈ bs, isDelimiter c = false)
    (ha : isDelimiter a = true) (hb : isDelimiter b = true)
    (h : as ++ a :: cs = bs ++ b :: ds) : as = bs ∧ a = b ∧ cs = ds := by
  refine @split_unique (fun c => !isDelimiter c) as bs cs ds a b ?_ ?_ ?_ ?_ h
  · simpa using has
  · simpa using hbs
  · simpa using ha
  · simpa using hb

/-- White space ends at the same delimiter. -/
theorem blanks_unique {as bs cs ds : List Char} {a b : Char} (has : Blanks as) (hbs : Blanks bs)
    (ha : isDelimiter a = true) (hb : isDelimiter b = true)
    (h : as ++ a :: cs = bs ++ b :: ds) : as = bs ∧ a = b ∧ cs = ds :=
  split_unique has hbs (isBlank_of_isDelimiter ha) (isBlank_of_isDelimiter hb) h

/-- A shape begins with a bracket. -/
theorem Node.exists_opening {cs : List Char} {shape : Shape} (node : Node cs shape) :
    ∃ b rest, cs = Bracket.opening b :: rest := by
  cases node with
  | emptyObject => exact ⟨.brace, _, rfl⟩
  | object => exact ⟨.brace, _, rfl⟩
  | emptyArray => exact ⟨.square, _, rfl⟩
  | arrayOf => exact ⟨.square, _, rfl⟩

/-- White space at its two ends leaves a raw name one of the same name. -/
theorem RawName.surround {before raw after : List Char} (name : RawName raw)
    (blank : Blanks before) (blank' : Blanks after) :
    RawName (before ++ raw ++ after) ∧ trim (before ++ raw ++ after) = trim raw := by
  have htrim : trim (before ++ raw ++ after) = trim raw := by
    rw [trim_append_right_of_blanks blank', trim_append_of_blanks blank]
  refine ⟨⟨?_, by rw [htrim]; exact name.solid⟩, htrim⟩
  intro c hc
  rcases List.mem_append.mp hc with hc | hc
  · rcases List.mem_append.mp hc with hc | hc
    · exact isDelimiter_of_isBlank (blank c hc)
    · exact name.plain c hc
  · exact isDelimiter_of_isBlank (blank' c hc)

/-- A padded field is a raw name, with nothing or a shape and white space behind it. -/
theorem Padded.view {cs : List Char} {field : Field} (padded : Padded cs field) :
    ∃ raw, RawName raw ∧
      ((cs = raw ∧ field = .leaf (String.ofList (trim raw))) ∨
        ∃ node after shape, cs = raw ++ (node ++ after) ∧ Node node shape ∧ Blanks after ∧
          field = .nested (String.ofList (trim raw)) shape) := by
  obtain ⟨blank, inner, blank'⟩ := padded
  cases inner with
  | leaf name =>
    obtain ⟨hname, htrim⟩ := name.surround blank blank'
    exact ⟨_, hname, .inl ⟨rfl, by rw [htrim]⟩⟩
  | nested name inner =>
    obtain ⟨hname, htrim⟩ := name.surround blank blanks_nil
    rw [List.append_nil] at hname htrim
    exact ⟨_, hname, .inr ⟨_, _, _, by simp only [List.append_assoc], inner, blank',
      by rw [htrim]⟩⟩

/-- Behind the raw name of a padded field comes a delimiter, the one behind the field or the
bracket of its shape. -/
theorem Padded.exists_delimiter {cs : List Char} {field : Field} (padded : Padded cs field)
    {c : Char} (hc : isDelimiter c = true) (rest : List Char) :
    ∃ raw d ds, RawName raw ∧ isDelimiter d = true ∧ cs ++ c :: rest = raw ++ d :: ds := by
  obtain ⟨raw, name, ⟨rfl, -⟩ | ⟨node, after, shape, rfl, inner, -, -⟩⟩ := padded.view
  · exact ⟨_, c, rest, name, hc, rfl⟩
  · obtain ⟨b, ds, rfl⟩ := inner.exists_opening
    exact ⟨raw, b.opening, ds ++ after ++ c :: rest, name, isDelimiter_opening b, by simp⟩

/-- Fields are not white space, up to the end of their object. -/
theorem Fields.ne_blanks {cs ws rest rest' : List Char} {fields : List Field}
    (inner : Fields cs fields) (blank : Blanks ws) {c d : Char} (hc : isDelimiter c = true)
    (hd : isDelimiter d = true) : cs ++ c :: rest ≠ ws ++ d :: rest' := by
  intro h
  obtain ⟨raw, e, es, name, he, hsplit⟩ :
      ∃ raw e es, RawName raw ∧ isDelimiter e = true ∧ cs ++ c :: rest = raw ++ e :: es := by
    cases inner with
    | one head => exact head.exists_delimiter hc rest
    | more head tail =>
      rw [List.append_assoc, List.cons_append]
      exact head.exists_delimiter (by decide) _
  rw [hsplit] at h
  obtain ⟨rfl, -⟩ := plain_unique name.plain (fun c hc => isDelimiter_of_isBlank (blank c hc))
    he hd h
  exact name.solid (trim_eq_nil_iff.mpr blank)

/-- Behind the same opening bracket the texts go on alike. -/
theorem inner_of_bracketed (b : Bracket) {cs cs' rest rest' : List Char}
    (h : b.opening :: (cs ++ [b.closing]) ++ rest = b.opening :: (cs' ++ [b.closing]) ++ rest') :
    cs ++ b.closing :: rest = cs' ++ b.closing :: rest' := by
  rw [List.cons_append, List.cons_append, List.append_assoc, List.append_assoc] at h
  exact (List.cons.inj h).2

/-- White space up to a closing bracket does not go on with a shape. -/
theorem Node.ne_blanks {before cs ws rest rest' : List Char} {shape : Shape} {b : Bracket}
    (inner : Node cs shape) (blank : Blanks before) (blank' : Blanks ws) :
    before ++ cs ++ rest ≠ ws ++ b.closing :: rest' := by
  intro h
  obtain ⟨b', ds, rfl⟩ := inner.exists_opening
  rw [List.append_assoc, List.cons_append] at h
  obtain ⟨-, hb, -⟩ :=
    blanks_unique blank blank' (isDelimiter_opening b') (isDelimiter_closing b) h
  exact opening_ne_closing b' b hb

/-- White space in front of two shapes that begin one text is the same. -/
theorem Node.blanks_unique {before before' cs cs' rest rest' : List Char} {shape shape' : Shape}
    (inner : Node cs shape) (inner' : Node cs' shape') (blank : Blanks before)
    (blank' : Blanks before') (h : before ++ (cs ++ rest) = before' ++ (cs' ++ rest')) :
    before = before' := by
  obtain ⟨b, ds, rfl⟩ := inner.exists_opening
  obtain ⟨b', ds', rfl⟩ := inner'.exists_opening
  exact (Grammar.blanks_unique blank blank' (isDelimiter_opening b) (isDelimiter_opening b') h).1

mutual

/-- Two shapes that begin one text are the same and end at the same place. -/
theorem Node.unique {cs cs' rest rest' : List Char} {shape shape' : Shape}
    (other : Node cs' shape') (h : cs ++ rest = cs' ++ rest') :
    Node cs shape → cs = cs' ∧ shape = shape' ∧ rest = rest'
  -- The first bracket tells an object from an array, and what is behind it tells an empty
  -- container from one that is not.
  | .emptyObject blank => by
    cases other with
    | emptyObject blank' =>
      obtain ⟨rfl, -, hrest⟩ := blanks_unique blank blank' (isDelimiter_closing .brace)
        (isDelimiter_closing .brace) (inner_of_bracketed .brace h)
      exact ⟨rfl, rfl, hrest⟩
    | object inner =>
      exact absurd (inner_of_bracketed .brace h).symm
        (inner.ne_blanks blank (isDelimiter_closing .brace) (isDelimiter_closing .brace))
    | emptyArray => cases (List.cons.inj h).1
    | arrayOf => cases (List.cons.inj h).1
  | .object inner => by
    cases other with
    | emptyObject blank =>
      exact absurd (inner_of_bracketed .brace h)
        (inner.ne_blanks blank (isDelimiter_closing .brace) (isDelimiter_closing .brace))
    | object inner' =>
      obtain ⟨rfl, rfl, hrest⟩ := Fields.unique inner' (inner_of_bracketed .brace h) inner
      exact ⟨rfl, rfl, hrest⟩
    | emptyArray => cases (List.cons.inj h).1
    | arrayOf => cases (List.cons.inj h).1
  | .emptyArray blank => by
    cases other with
    | emptyObject => cases (List.cons.inj h).1
    | object => cases (List.cons.inj h).1
    | emptyArray blank' =>
      obtain ⟨rfl, -, hrest⟩ := blanks_unique blank blank' (isDelimiter_closing .square)
        (isDelimiter_closing .square) (inner_of_bracketed .square h)
      exact ⟨rfl, rfl, hrest⟩
    | arrayOf blank' inner _ =>
      have htail := inner_of_bracketed .square h
      rw [List.append_assoc _ _ (_ :: _)] at htail
      exact absurd htail.symm (inner.ne_blanks blank' blank)
  | .arrayOf blank inner blank' => by
    cases other with
    | emptyObject => cases (List.cons.inj h).1
    | object => cases (List.cons.inj h).1
    | emptyArray blank'' =>
      have htail := inner_of_bracketed .square h
      rw [List.append_assoc _ _ (_ :: _)] at htail
      exact absurd htail (inner.ne_blanks blank blank'')
    | arrayOf blank₁ inner₁ blank₁' =>
      -- White space, the element and white space again, each the same in both texts.
      have htail := inner_of_bracketed .square h
      simp only [List.append_assoc] at htail
      obtain rfl := inner.blanks_unique inner₁ blank blank₁ htail
      obtain ⟨rfl, rfl, hafter⟩ := Node.unique inner₁ (List.append_cancel_left htail) inner
      obtain ⟨rfl, -, hrest⟩ := blanks_unique blank' blank₁' (isDelimiter_closing .square)
        (isDelimiter_closing .square) hafter
      exact ⟨rfl, rfl, hrest⟩
termination_by structural h => h

/-- Two padded fields that begin one text, each in front of a comma or the end of its object, are
the same and end at the same place. -/
theorem Padded.unique {cs cs' rest rest' : List Char} {field field' : Field} {c d : Char}
    (other : Padded cs' field') (hc : EndsField c) (hd : EndsField d)
    (h : cs ++ c :: rest = cs' ++ d :: rest') :
    Padded cs field → cs = cs' ∧ field = field' ∧ c = d ∧ rest = rest'
  | .mk blank (.leaf name) blank' => by
    obtain ⟨hname, htrim⟩ := name.surround blank blank'
    obtain ⟨raw, name₁, ⟨rfl, rfl⟩ | ⟨node, after, shape, rfl, inner, -, -⟩⟩ := other.view
    · obtain ⟨hraw, hcd, hrest⟩ :=
        plain_unique hname.plain name₁.plain hc.isDelimiter hd.isDelimiter h
      exact ⟨hraw, by rw [← hraw, htrim], hcd, hrest⟩
    · -- One name ends at the end of its field and the other at a bracket.
      obtain ⟨b, ds, rfl⟩ := inner.exists_opening
      rw [List.append_assoc raw, List.cons_append, List.cons_append] at h
      obtain ⟨-, hb, -⟩ :=
        plain_unique hname.plain name₁.plain hc.isDelimiter (isDelimiter_opening b) h
      exact absurd hb (hc.ne_opening b)
  | .mk blank (.nested name inner) blank' => by
    obtain ⟨hname, htrim⟩ := name.surround blank blanks_nil
    rw [List.append_nil] at hname htrim
    rw [← List.append_assoc, List.append_assoc _ _ (c :: rest),
      List.append_assoc _ _ (_ ++ _)] at h
    obtain ⟨b, ds, hopen⟩ := inner.exists_opening
    have hfront := h
    rw [hopen, List.cons_append] at hfront
    obtain ⟨raw, name₁, ⟨rfl, -⟩ | ⟨node, after, shape, rfl, inner₁, blank₁, rfl⟩⟩ := other.view
    · obtain ⟨-, hb, -⟩ :=
        plain_unique hname.plain name₁.plain (isDelimiter_opening b) hd.isDelimiter hfront
      exact absurd hb.symm (hd.ne_opening b)
    · obtain ⟨b₁, ds₁, hopen₁⟩ := inner₁.exists_opening
      rw [List.append_assoc raw, List.append_assoc node] at h hfront
      rw [hopen₁, List.cons_append] at hfront
      obtain ⟨hraw, -, -⟩ := plain_unique hname.plain name₁.plain (isDelimiter_opening b)
        (isDelimiter_opening b₁) hfront
      -- The raw names are the same, and behind them the two shapes begin one text.
      rw [hraw] at h
      obtain ⟨rfl, rfl, hafter⟩ := Node.unique inner₁ (List.append_cancel_left h) inner
      obtain ⟨rfl, hcd, hrest⟩ := blanks_unique blank' blank₁ hc.isDelimiter hd.isDelimiter hafter
      refine ⟨?_, by rw [← hraw, htrim], hcd, hrest⟩
      rw [← hraw, List.append_assoc, List.append_assoc, List.append_assoc]
termination_by structural h => h

/-- Fields that begin one text, up to the end of their object, are the same. -/
theorem Fields.unique {cs cs' rest rest' : List Char} {fields fields' : List Field}
    (other : Fields cs' fields')
    (h : cs ++ Bracket.brace.closing :: rest = cs' ++ Bracket.brace.closing :: rest') :
    Fields cs fields → cs = cs' ∧ fields = fields' ∧ rest = rest'
  | .one head => by
    cases other with
    | one head' =>
      obtain ⟨rfl, rfl, -, hrest⟩ := Padded.unique head' (.inr rfl) (.inr rfl) h head
      exact ⟨rfl, rfl, hrest⟩
    | more head' tail' =>
      rw [List.append_assoc, List.cons_append] at h
      -- The first field would end at the closing bracket and at a comma.
      obtain ⟨-, -, hcomma, -⟩ := Padded.unique head' (.inr rfl) (.inl rfl) h head
      cases hcomma
  | .more head tail => by
    cases other with
    | one head' =>
      rw [List.append_assoc, List.cons_append] at h
      obtain ⟨-, -, hcomma, -⟩ := Padded.unique head' (.inl rfl) (.inr rfl) h head
      cases hcomma
    | more head' tail' =>
      rw [List.append_assoc, List.cons_append, List.append_assoc, List.cons_append] at h
      obtain ⟨rfl, rfl, -, htail⟩ := Padded.unique head' (.inl rfl) (.inl rfl) h head
      obtain ⟨rfl, rfl, hrest⟩ := Fields.unique tail' htail tail
      exact ⟨rfl, rfl, hrest⟩
termination_by structural h => h

end

/-- A text is that of one shape. -/
theorem Root.unique {cs : List Char} {shape shape' : Shape} (root : Root cs shape)
    (other : Root cs shape') : shape = shape' := by
  obtain @⟨before, node, after, _, blank, inner, _⟩ := root
  generalize htext : before ++ node ++ after = text at other
  obtain ⟨blank', inner', _⟩ := other
  rw [List.append_assoc, List.append_assoc] at htext
  obtain rfl := inner.blanks_unique inner' blank blank' htext
  exact (Node.unique inner' (List.append_cancel_left htext) inner).2.1

end Grammar

end DocShape
