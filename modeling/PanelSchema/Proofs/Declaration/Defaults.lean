import PanelSchema.Proofs.Declaration.Acceptance

/-!
Defaults and types. A number becomes a default of the kind that the final type of the property
asks for, whatever attributes have made of that type; a parenthesized list becomes a vector
under every type but a color. So the line itself tells which defaults do not agree with their
type: those that end with a parenthesis and belong to a type of single values or of textures.
-/

namespace PanelSchema

/-- The defaults that a property of the type can have. Of types without values of their own
nothing is asked. -/
def PropertyType.admits : PropertyType → PropertyDefault → Bool
  | .int, .int _ | .enum, .int _ => true
  | .float, .float _ | .range, .float _ | .toggle, .float _ => true
  | .color, .color .. => true
  | .vector, .vector _ => true
  | .curve, _ | .gradient, _ | .unknown, _ => true
  | _, _ => false

theorem Spaced.last_two {blank : List Char → Prop} {x y text : List Char}
    (parts : List (List Char)) (h : Spaced blank (parts ++ [x, y]) text) :
    ∃ before bs, blank bs ∧ text = before ++ (x ++ (bs ++ y)) := by
  induction parts generalizing text with
  | nil =>
    cases h with
    | cons _ hbs h =>
      cases h with
      | last => exact ⟨[], _, hbs, rfl⟩
      | cons _ _ h => cases h
  | cons part parts ih =>
    generalize hparts : part :: parts ++ [x, y] = all at h
    cases h with
    | last => simp at hparts
    | @cons bs _ _ _ _ h =>
      obtain ⟨rfl, rfl⟩ := List.cons.inj hparts
      obtain ⟨before, bs', hbs', rfl⟩ := ih h
      exact ⟨part ++ (bs ++ before), bs', hbs', by simp only [List.append_assoc]⟩

theorem isBlank_last_trim {cs : List Char} {x : Char} (h : (trim cs).getLast? = some x) :
    isBlank x = false := by
  rw [trim, trimEnd, List.getLast?_reverse] at h
  have hhead := List.head?_dropWhile_not isBlank (trimStart cs).reverse
  rw [h] at hhead
  exact hhead

namespace Declaration

open Grammar

/-! ### How a default is written -/

theorem last_of_vector {cs : List Char} {ps : List (Piece Rule)}
    (h : Reads grammar .loose (body .vectorDefault) cs ps) : ∃ ds, cs = ds ++ [')'] := by
  obtain ⟨parts, hparts, hspaced, -⟩ := Reads.all blanks (by simp) h
  simp only [List.forall₂_cons_left_iff, List.forall₂_nil_left_iff, Prod.exists] at hparts
  obtain ⟨first, _, _, -, ⟨items, _, _, -, ⟨_, _, _, hclose, rfl, rfl⟩, rfl⟩, rfl⟩ := hparts
  obtain ⟨rfl, -⟩ := hclose.text
  obtain ⟨before, bs, -, rfl⟩ := Spaced.last_two [first] hspaced
  exact ⟨before ++ (items ++ bs), by simp⟩

theorem last_of_texture {cs : List Char} (h : Spells grammar (body .textureDefault) cs) :
    ∃ ds x, cs = ds ++ [x] ∧ x ≠ ')' := by
  obtain ⟨opening, _, -, hname, rfl⟩ := spells_seq.1 h
  obtain ⟨name, _, -, hquote, rfl⟩ := spells_seq.1 hname
  obtain ⟨quote, _, hclose, hrest, rfl⟩ := spells_seq.1 hquote
  obtain ⟨bs, _, hblanks, hbraces, rfl⟩ := spells_seq.1 hrest
  rw [spells_text.1 hclose]
  rcases spells_opt.1 hbraces with rfl | hbraces
  · have hblank : ∀ c ∈ bs, c ≠ ')' := by
      refine spells_many_forall (fun ds hds => ?_) hblanks
      cases hds with
      | rule hds =>
        rw [body_whitespace, spells_alt, spells_text, spells_text] at hds
        rcases hds with rfl | rfl <;> simp
    obtain rfl | ⟨bs, x, rfl⟩ := List.eq_nil_or_concat' bs
    · exact ⟨_, '"', by simp only [List.append_nil, ← List.append_assoc]; rfl, by decide⟩
    · exact ⟨_, x, by simp only [List.append_nil, ← List.append_assoc]; rfl, hblank x (by simp)⟩
  · obtain ⟨_, _, -, hinside, rfl⟩ := spells_seq.1 hbraces
    obtain ⟨_, _, -, hend, rfl⟩ := spells_seq.1 hinside
    rw [spells_text.1 hend]
    exact ⟨_, '\x7d', by simp only [← List.append_assoc]; rfl, by decide⟩

theorem last_of_numeral (n : Numeral) : ∃ ds x, n.chars = ds ++ [x] ∧ x ≠ ')' := by
  obtain ⟨cs, d, hlast, hd⟩ := n.unsigned_last
  have hmark := n.mark_mem
  simp only [List.mem_cons, List.not_mem_nil, or_false] at hmark
  unfold Numeral.chars
  rcases hmark with hmark | hmark | hmark
  · refine ⟨n.sign.chars ++ cs, d, by rw [hmark, hlast]; simp, ?_⟩
    have hbounds := toNat_figure hd
    rintro rfl
    revert hbounds
    decide
  · exact ⟨_, 'f', by rw [hmark], by decide⟩
  · exact ⟨_, 'F', by rw [hmark], by decide⟩

/-- A default and the character it ends with. Only a list of numbers ends with a parenthesis. -/
theorem written_of_value {cs : List Char} {ps : List (Piece Rule)}
    (h : Reads grammar .loose (body .defaultValue) cs ps) :
    ∃ v ds x, ps = [v] ∧ cs = ds ++ [x] ∧ (x = ')' ↔ v.rule = .vectorDefault) := by
  rcases h.alt with h | h
  · obtain ⟨v, rfl, rfl, hv, hread⟩ := piece_of_reads h (by decide)
    obtain ⟨ds, hds⟩ := last_of_vector hread
    exact ⟨v, ds, ')', rfl, hds, by simp [hv.rule]⟩
  rcases h.alt with h | h
  · obtain ⟨v, rfl, rfl, hv, -⟩ := piece_of_reads h (by decide)
    obtain ⟨ds, x, hds, hx⟩ := last_of_texture (hv.chars (by decide))
    exact ⟨v, ds, x, rfl, hds, by simp [hv.rule, hx]⟩
  · obtain ⟨v, rfl, rfl, hv, -⟩ := piece_of_reads h (by decide)
    obtain ⟨n, hn⟩ := exists_numeral (hv.chars (by decide))
    obtain ⟨ds, x, hds, hx⟩ := last_of_numeral n
    exact ⟨v, ds, x, rfl, hn.symm.trans hds, by simp [hv.rule, hx]⟩

/-- The default is the last thing on a line but for blanks. -/
theorem value_of_line {text : List Char} {ps : List (Piece Rule)}
    (h : Reads grammar .loose (body .propertyLine) text ps) :
    ∃ front value stop before bs, ps = front ++ [value, stop] ∧ value.rule = .defaultValue ∧
      stop.rule = .endOfInput ∧ Reads grammar .loose (body .defaultValue) value.chars value.inner ∧
      IsBlanks bs ∧ text = before ++ (value.chars ++ bs) := by
  obtain ⟨parts, hparts, hspaced, rfl⟩ := Reads.all blanks (by simp) h
  simp only [List.forall₂_cons_left_iff, List.forall₂_nil_left_iff, Prod.exists] at hparts
  obtain ⟨a, as, _, -, ⟨b, bs, _, -, ⟨c, cs, _, -, ⟨d, ds, _, -, ⟨e, es, _, -, ⟨f, fs, _, -,
    ⟨g, gs, _, -, ⟨i, is, _, -, ⟨j, js, _, -, ⟨_, _, _, hvalue, ⟨_, _, _, hstop, rfl, rfl⟩,
    rfl⟩, rfl⟩, rfl⟩, rfl⟩, rfl⟩, rfl⟩, rfl⟩, rfl⟩, rfl⟩, rfl⟩ := hparts
  obtain ⟨value, rfl, rfl, hvalue, hread⟩ := piece_of_reads hvalue (by decide)
  obtain ⟨stop, rfl, rfl, hstop, hempty⟩ := piece_of_reads hstop (by decide)
  obtain ⟨before, blank, hblank, rfl⟩ :=
    Spaced.last_two [a, b, c, d, e, f, g, i, j] hspaced
  refine ⟨as ++ bs ++ cs ++ ds ++ es ++ fs ++ gs ++ is ++ js, value, stop, before, blank,
    by simp, hvalue.rule, hstop.rule, hread, hblank, ?_⟩
  rw [hempty.endOfInput.1, List.append_nil]

/-! ### What a default is read as -/

theorem default_of_pieces {front : List (Piece Rule)} {value stop v : Piece Rule} {d : Declaration}
    (hvalue : value.rule = .defaultValue) (hstop : stop.rule = .endOfInput)
    (hinner : value.inner = [v]) (h : ofPieces? (front ++ [value, stop]) = some d) :
    defaultOf? d.type v = some d.default := by
  have hfind : (front ++ [value, stop]).reverse.find? (·.rule == .defaultValue) = some value := by
    simp [hvalue, hstop]
  unfold ofPieces? at h
  obtain ⟨attributes, -, h⟩ := Option.bind_eq_some_iff.1 h
  obtain ⟨plain, -, h⟩ := Option.bind_eq_some_iff.1 h
  rw [hfind] at h
  simp only [hinner] at h
  obtain ⟨default, hdefault, h⟩ := Option.bind_eq_some_iff.1 h
  cases h
  exact hdefault

/-- The types that have neither colors nor vectors for values. -/
def plainTypes : List PropertyType :=
  [.int, .enum, .float, .range, .toggle, .texture]

/-- A default is of the wrong kind only if it is a list of numbers of a plain type. -/
theorem admits_default_iff {type : PropertyType} {v : Piece Rule} {default : Option PropertyDefault}
    (h : defaultOf? type v = some default) :
    (∀ x, default = some x → type.admits x = true) ↔
      ¬(v.rule = .vectorDefault ∧ type ∈ plainTypes) := by
  unfold defaultOf? at h
  split at h
  · rename_i hrule
    obtain ⟨x, -, rfl⟩ := Option.map_eq_some_iff.1 h
    cases type <;> simp [hrule, PropertyType.admits]
  · rename_i hrule
    obtain ⟨xs, -, rfl⟩ := Option.map_eq_some_iff.1 h
    cases type <;> simp [hrule, PropertyType.admits, plainTypes, colorOf]
  · rename_i hvector
    cases h
    exact ⟨fun _ hv => hvector hv.1, nofun⟩

theorem read_of_line {line text : List Char} (hline : Stripped false line text) {d : Declaration}
    (h : ofLine? line = some d) :
    ∃ root : Piece Rule, Reads grammar .loose (body .propertyLine) (trim text) root.inner ∧
      ofPieces? root.inner = some d := by
  unfold ofLine? at h
  rw [(stripped_dropComment false line).unique hline] at h
  dsimp only at h
  split at h
  · split at h
    · rename_i root more hmatch
      obtain ⟨stop, hanswers⟩ := answers_of_match hmatch
      obtain ⟨p, hp, -, -, hread⟩ := piece_of_reads (reads_line hanswers) (by decide)
      cases hp
      exact ⟨root, hread, h⟩
    · cases h
  · cases h

/-- The default of a declaration is of the kind that its final type asks for, exactly unless
what is left of the line without comment and blanks ends with a parenthesis and the type is a
plain one. -/
theorem ofLine?_default_admitted_iff {line text : List Char} (hline : Stripped false line text)
    {d : Declaration} (h : ofLine? line = some d) :
    (∀ x, d.default = some x → d.type.admits x = true) ↔
      ¬((trim text).getLast? = some ')' ∧ d.type ∈ plainTypes) := by
  obtain ⟨root, hread, hpieces⟩ := read_of_line hline h
  obtain ⟨front, value, stop, before, bs, hfront, hvalue, hstop, hread, hbs, htext⟩ :=
    value_of_line hread
  obtain ⟨v, ds, x, hinner, hchars, hx⟩ := written_of_value hread
  rw [hfront] at hpieces
  rw [admits_default_iff (default_of_pieces hvalue hstop hinner hpieces), ← hx]
  -- Nothing stands behind the default, for the line is trimmed.
  obtain rfl : bs = [] := by
    obtain rfl | ⟨bs, y, rfl⟩ := List.eq_nil_or_concat' bs
    · rfl
    · have hlast : (trim text).getLast? = some y := by
        rw [htext]
        simp
      have hblank := isBlank_last_trim hlast
      rcases hbs y (by simp) with rfl | rfl <;> exact absurd hblank (by decide)
  have hlast : (trim text).getLast? = some x := by
    rw [htext, hchars]
    simp
  rw [hlast, Option.some_inj]

/-- A range that becomes an integer and then a switch: its number is read as a float. -/
theorem ofLine?_default_admitted_iff_switch :
    let line := "[IntRange] [Toggle(ON)] _On (\"On\", Range(0, 1)) = 1 // (x)".toList
    let text := "[IntRange] [Toggle(ON)] _On (\"On\", Range(0, 1)) = 1 ".toList
    Stripped false line text ∧ ∃ d x, ofLine? line = some d ∧ d.type = .toggle ∧
      d.default = some x ∧ d.type.admits x = true := by
  intro line text
  have hline : Stripped false line text := by
    have hdrop : dropComment false line = text := by decide
    exact hdrop ▸ stripped_dropComment false line
  have htype : ((ofLine? line).bind fun d => d.default.map fun _ => d.type) = some .toggle := by
    decide
  obtain ⟨d, hd, htype⟩ := Option.bind_eq_some_iff.1 htype
  obtain ⟨x, hx, htype⟩ := Option.map_eq_some_iff.1 htype
  have hlast : (trim text).getLast? = some '1' := by decide
  have hadmits := (ofLine?_default_admitted_iff hline hd).2 (by simp [hlast])
  exact ⟨hline, d, x, hd, htype, hx, hadmits x hx⟩

/-- A single number with a list of two for its default. -/
theorem ofLine?_default_not_admitted :
    ∃ d x, ofLine? "_A (\"A\", Float) = (1, 2)".toList = some d ∧ d.type = .float ∧
      d.default = some x ∧ d.type.admits x = false := by
  have hvalue : ((ofLine? "_A (\"A\", Float) = (1, 2)".toList).bind fun d =>
      d.default.map fun x => (d.type, d.type.admits x)) = some (.float, false) := by
    decide
  obtain ⟨d, hd, hvalue⟩ := Option.bind_eq_some_iff.1 hvalue
  obtain ⟨x, hx, hvalue⟩ := Option.map_eq_some_iff.1 hvalue
  obtain ⟨htype, hadmits⟩ := Prod.mk.inj hvalue
  exact ⟨d, x, hd, htype, hx, hadmits⟩

end Declaration

end PanelSchema
