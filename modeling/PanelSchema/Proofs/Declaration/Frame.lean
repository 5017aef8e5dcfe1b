import PanelSchema.Proofs.Declaration.Numeral
import PanelSchema.Proofs.Grammar.Parts

/-!
How a line that the grammar takes is laid out: attributes, a name, a quoted text, a type and a
default in their frame, with blanks between them.
-/

namespace PanelSchema.Declaration

open Grammar

/-! ### Enough for each character -/

def rank : Rule → Nat
  | .propertyLine => 4
  | .propType | .defaultValue => 3
  | .attributeItem | .attrArgs | .display | .rangeType | .vectorDefault | .textureDefault => 2
  | _ => 1

/-- No rule nests fifty phrases before it comes to one that stands lower. -/
def measure : Measure Rule where
  solid r := !(r matches .endOfInput | .displayInner | .textureName)
  height loose r := 50 * rank r + (if loose then 60 else 0)
  blank := 60

theorem bounded : grammar.Bounded measure where
  solid := by
    intro r
    cases r <;> decide
  fits := by
    intro loose r
    cases loose <;> cases r <;> decide
  height := by
    intro loose r
    cases loose <;> cases r <;> decide
  fits_blank := by decide
  blank := by decide

/-! ### Blanks -/

def IsBlanks (bs : List Char) : Prop :=
  ∀ c ∈ bs, c = ' ' ∨ c = '\t'

theorem body_whitespace : grammar.body .whitespace = .alt (.text [' ']) (.text ['\t']) :=
  rfl

theorem blankLeavesNothing : grammar.BlankLeavesNothing := by
  intro ps h
  obtain ⟨rounds, hrounds, rfl⟩ := leaves_many.1 h
  rw [List.flatten_eq_nil_iff]
  intro qs hqs
  have hround := (leaves_silent rfl).1 (hrounds qs hqs)
  simpa only [body_whitespace, leaves_alt, leaves_text, or_self] using hround

theorem blanks : grammar.Blanks IsBlanks := by
  intro bs ps h
  obtain ⟨hleaves, hspells⟩ := h.explained blankLeavesNothing
  refine ⟨?_, blankLeavesNothing ps hleaves⟩
  refine spells_many_forall (fun ds hds => ?_) (hspells (by decide))
  cases hds with
  | rule hds =>
    rw [body_whitespace, spells_alt, spells_text, spells_text] at hds
    rcases hds with rfl | rfl <;> simp

/-! ### Pieces -/

theorem piece_of_reads {r : Rule} {cs : List Char} {ps : List (Piece Rule)}
    (h : Reads grammar .loose (.rule r) cs ps) (hstyle : style r ≠ .silent) :
    ∃ p, ps = [p] ∧ p.chars = cs ∧ Left grammar .loose r p ∧
      Reads grammar (innerSpacing (style r) .loose) (body r) cs p.inner := by
  have hkept : outerSpacing (style r) .loose ≠ .atomic := by
    unfold outerSpacing outerMode
    split <;> simp
  obtain ⟨p, rfl, hrule, rfl, hread⟩ := h.piece hstyle hkept
  obtain ⟨hleaves, hspells⟩ := hread.explained blankLeavesNothing
  exact ⟨p, rfl, rfl, ⟨hrule, hleaves, hspells⟩, hread⟩

theorem shown_of_display {cs : List Char} {ps : List (Piece Rule)}
    (h : Reads grammar .compound (body .display) cs ps) :
    ∃ shown : Piece Rule, ps = [shown] ∧ cs = '"' :: (shown.chars ++ ['"']) := by
  obtain ⟨_, _, _, _, hopen, htail, rfl, rfl⟩ := Reads.tight h (by decide)
  obtain ⟨_, _, _, _, hinner, hclose, rfl, rfl⟩ := Reads.tight htail (by decide)
  obtain ⟨rfl, rfl⟩ := hopen.text
  obtain ⟨rfl, rfl⟩ := hclose.text
  obtain ⟨shown, rfl, -, rfl, -⟩ := hinner.piece (by decide) (by decide)
  exact ⟨shown, rfl, rfl⟩

/-- `Range(least, greatest)` -/
structure RangeFrame (type : Piece Rule) where
  range : Piece Rule
  lo : Piece Rule
  hi : Piece Rule
  word : List Char
  least : Numeral
  greatest : Numeral
  inner : type.inner = [range]
  isRange : range.rule = .rangeType
  bounds : range.inner = [lo, hi]
  lo_chars : lo.chars = least.chars
  hi_chars : hi.chars = greatest.chars
  word_eq : word.map Char.toLower = ['r', 'a', 'n', 'g', 'e']
  spaced : Spaced IsBlanks [word, ['('], lo.chars, [','], hi.chars, [')']] type.chars

theorem numeral_of_number {cs : List Char} {ps : List (Piece Rule)}
    (h : Reads grammar .loose (.rule .number) cs ps) :
    ∃ (p : Piece Rule) (n : Numeral), ps = [p] ∧ p.chars = cs ∧ n.chars = cs := by
  obtain ⟨p, rfl, rfl, hp, -⟩ := piece_of_reads h (by decide)
  obtain ⟨n, hn⟩ := exists_numeral (hp.chars (by decide))
  exact ⟨p, n, rfl, rfl, hn⟩

theorem exists_rangeFrame {type range : Piece Rule} (hinner : type.inner = [range])
    (hrange : range.rule = .rangeType)
    (h : Reads grammar .loose (body .rangeType) type.chars range.inner) :
    Nonempty (RangeFrame type) := by
  obtain ⟨parts, hparts, hspaced, hps⟩ := Reads.all blanks (by simp) h
  simp only [List.forall₂_cons_left_iff, List.forall₂_nil_left_iff, Prod.exists] at hparts
  obtain ⟨word, _, _, hword, ⟨_, _, _, hopen, ⟨_, _, _, hlo, ⟨_, _, _, hcomma, ⟨_, _, _, hhi,
    ⟨_, _, _, hclose, rfl, rfl⟩, rfl⟩, rfl⟩, rfl⟩, rfl⟩, rfl⟩ := hparts
  obtain ⟨hlower, rfl⟩ := hword.caseless
  obtain ⟨rfl, rfl⟩ := hopen.text
  obtain ⟨rfl, rfl⟩ := hcomma.text
  obtain ⟨rfl, rfl⟩ := hclose.text
  obtain ⟨lo, least, rfl, rfl, hleast⟩ := numeral_of_number hlo
  obtain ⟨hi, greatest, rfl, rfl, hgreatest⟩ := numeral_of_number hhi
  exact ⟨{
    range, lo, hi, word, least, greatest
    inner := hinner
    isRange := hrange
    bounds := hps
    lo_chars := hleast.symm
    hi_chars := hgreatest.symm
    word_eq := hlower
    spaced := hspaced }⟩

theorem range_or_token {type : Piece Rule}
    (h : Reads grammar .loose (body .propType) type.chars type.inner) :
    Nonempty (RangeFrame type) ∨
      ∃ token : Piece Rule, type.inner = [token] ∧ token.rule = .typeToken := by
  rcases h.alt with h | h
  · obtain ⟨range, hinner, -, hrange, hread⟩ := piece_of_reads h (by decide)
    exact .inl (exists_rangeFrame hinner hrange.rule hread)
  · obtain ⟨token, hinner, -, htoken, -⟩ := piece_of_reads h (by decide)
    exact .inr ⟨token, hinner, htoken.rule⟩

theorem attributes_of_many {cs : List Char} {ps : List (Piece Rule)}
    (h : Reads grammar .loose (.many (.rule .attributeItem)) cs ps) :
    ∀ p ∈ ps, Left grammar .loose .attributeItem p := by
  obtain ⟨hleaves, -⟩ := h.explained blankLeavesNothing
  obtain ⟨rounds, hrounds, rfl⟩ := leaves_many.1 hleaves
  intro p hp
  obtain ⟨round, hround, hp⟩ := List.mem_flatten.1 hp
  obtain ⟨q, rfl, hq⟩ := (leaves_kept (by decide) (by decide)).1 (hrounds round hround)
  exact List.mem_singleton.1 hp ▸ hq

/-- A line of the grammar. -/
structure Frame (text : List Char) (pieces : List (Piece Rule)) where
  attributes : List (Piece Rule)
  before : List Char
  name : Piece Rule
  display : Piece Rule
  shown : Piece Rule
  type : Piece Rule
  value : Piece Rule
  stop : Piece Rule
  pieces_eq : pieces = attributes ++ [name, display, type, value, stop]
  spaced : Spaced IsBlanks
    [[], before, name.chars, ['('], display.chars, [','], type.chars, [')'], ['='], value.chars, []]
    text
  isAttribute : ∀ p ∈ attributes, Left grammar .loose .attributeItem p
  isName : Left grammar .loose .propName name
  isDisplay : display.rule = .display
  display_inner : display.inner = [shown]
  display_chars : display.chars = '"' :: (shown.chars ++ ['"'])
  isType : type.rule = .propType
  type_inner : Nonempty (RangeFrame type) ∨
    ∃ token : Piece Rule, type.inner = [token] ∧ token.rule = .typeToken
  isValue : Left grammar .loose .defaultValue value
  isStop : stop.rule = .endOfInput

theorem exists_frame {text : List Char} {ps : List (Piece Rule)}
    (h : Reads grammar .loose (body .propertyLine) text ps) : Nonempty (Frame text ps) := by
  obtain ⟨parts, hparts, hspaced, hps⟩ := Reads.all blanks (by simp) h
  simp only [List.forall₂_cons_left_iff, List.forall₂_nil_left_iff, Prod.exists] at hparts
  obtain ⟨_, _, _, hstart, ⟨before, attributes, _, hattributes, ⟨_, _, _, hname,
    ⟨_, _, _, hopen, ⟨_, _, _, hdisplay, ⟨_, _, _, hcomma, ⟨_, _, _, htype, ⟨_, _, _, hclose,
    ⟨_, _, _, hequals, ⟨_, _, _, hvalue, ⟨_, _, _, hstop, rfl, rfl⟩, rfl⟩, rfl⟩, rfl⟩, rfl⟩,
    rfl⟩, rfl⟩, rfl⟩, rfl⟩, rfl⟩, rfl⟩ := hparts
  obtain ⟨rfl, rfl⟩ := hstart.startOfInput
  obtain ⟨rfl, rfl⟩ := hopen.text
  obtain ⟨rfl, rfl⟩ := hcomma.text
  obtain ⟨rfl, rfl⟩ := hclose.text
  obtain ⟨rfl, rfl⟩ := hequals.text
  obtain ⟨name, rfl, rfl, hname, -⟩ := piece_of_reads hname (by decide)
  obtain ⟨display, rfl, rfl, hdisplay, hquotes⟩ := piece_of_reads hdisplay (by decide)
  obtain ⟨type, rfl, rfl, htype, hinner⟩ := piece_of_reads htype (by decide)
  obtain ⟨value, rfl, rfl, hvalue, -⟩ := piece_of_reads hvalue (by decide)
  obtain ⟨stop, rfl, rfl, hstop, hempty⟩ := piece_of_reads hstop (by decide)
  obtain ⟨shown, hshown, hquoted⟩ := shown_of_display hquotes
  rw [hempty.endOfInput.1] at hspaced
  exact ⟨{
    attributes, before, name, display, shown, type, value, stop
    pieces_eq := hps
    spaced := hspaced
    isAttribute := attributes_of_many hattributes
    isName := hname
    isDisplay := hdisplay.rule
    display_inner := hshown
    display_chars := hquoted
    isType := htype.rule
    type_inner := range_or_token hinner
    isValue := hvalue
    isStop := hstop.rule }⟩

theorem reads_line {text : List Char} {stop : Cursor} {ps : List (Piece Rule)}
    (h : Answers grammar .loose (.rule .propertyLine) { rest := text } (some (stop, ps))) :
    Reads grammar .loose (.rule .propertyLine) text ps := by
  have hend : stop.rest = [] := by
    obtain ⟨qs, hbody⟩ := h.of_rule (by decide)
    obtain ⟨c, qs, hlast⟩ := Answers.last_of_all hbody rfl
    obtain ⟨qs, hlast⟩ := hlast.of_rule (by decide)
    exact hlast.rest_of_endOfInput
  obtain ⟨cs, htook⟩ := h.took
  obtain rfl : text = cs := by
    have hrest := htook.rest
    rwa [hend, List.append_nil] at hrest
  exact ⟨_, _, h, htook⟩

theorem frame_of_answers {text : List Char} {stop : Cursor} {ps : List (Piece Rule)}
    (h : Answers grammar .loose (.rule .propertyLine) { rest := text } (some (stop, ps))) :
    ∃ root, ps = [root] ∧ Nonempty (Frame text root.inner) := by
  obtain ⟨root, rfl, -, -, hread⟩ := piece_of_reads (reads_line h) (by decide)
  exact ⟨root, rfl, exists_frame hread⟩

end PanelSchema.Declaration
