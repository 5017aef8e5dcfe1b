import PanelSchema.Proofs.Declaration.Comment
import PanelSchema.Proofs.Declaration.Frame

/-!
Which lines are declarations. All that the grammar takes is read: no number and no attribute of
such a line is refused later.
-/

namespace PanelSchema.Declaration

open Grammar

theorem exists_mapM {α β : Type} {f : α → Option β} {xs : List α}
    (h : ∀ x ∈ xs, ∃ y, f x = some y) : ∃ ys, xs.mapM f = some ys := by
  induction xs with
  | nil => exact ⟨[], rfl⟩
  | cons x xs ih =>
    rw [List.forall_mem_cons] at h
    obtain ⟨y, hy⟩ := h.1
    obtain ⟨ys, hys⟩ := ih h.2
    exact ⟨y :: ys, by rw [List.mapM_cons, hy, hys]; rfl⟩

/-! ### Attributes -/

theorem exists_attribute {p : Piece Rule} (h : Left grammar .loose .attributeItem p) :
    ∃ a, attributeOf? p = some a := by
  obtain ⟨_, _, hopen, htail, hinner⟩ := leaves_seq.1 h.inner
  obtain ⟨_, _, hname, -, rfl⟩ := leaves_seq.1 htail
  rw [leaves_text.1 hopen] at hinner
  obtain ⟨name, rfl, -⟩ := (leaves_kept (by decide) (by decide)).1 hname
  unfold attributeOf?
  rw [hinner]
  exact ⟨_, rfl⟩

/-- The parts of a declaration that attributes leave alone. -/
def heading (d : Declaration) : String × Option String × Option ValueRange :=
  (d.identifier, d.displayName, d.range)

theorem heading_applyAttribute (d : Declaration) (name : String) (args : List String) :
    heading (applyAttribute d name args) = heading d := by
  unfold applyAttribute
  split
  · rfl
  · rfl
  · rfl
  · rfl
  · split <;> rfl
  · dsimp only
    split
    · rfl
    · split <;> rfl
  · rfl
  · rfl

theorem heading_foldl (attributes : List (String × List String)) (d : Declaration) :
    heading (attributes.foldl (fun d a => applyAttribute d a.1 a.2) d) = heading d := by
  induction attributes generalizing d with
  | nil => rfl
  | cons a attributes ih => rw [List.foldl_cons, ih, heading_applyAttribute]

/-! ### Defaults -/

theorem exists_number {p : Piece Rule} {sp : Spacing} (h : Left grammar sp .number p) :
    ∃ n : Numeral, n.chars = p.chars ∧ number? p.chars = some n.value :=
  number?_of_spells (h.chars (by cases sp <;> decide))

theorem components_of_vector {ps : List (Piece Rule)}
    (h : Leaves grammar .loose (body .vectorDefault) ps) :
    ∀ p ∈ ps, Left grammar .loose .number p := by
  have hnumber : ∀ {qs}, Leaves grammar .loose (.rule .number) qs →
      ∀ p ∈ qs, Left grammar .loose .number p := by
    intro qs hqs p hp
    obtain ⟨q, rfl, hq⟩ := (leaves_kept (by decide) (by decide)).1 hqs
    exact List.mem_singleton.1 hp ▸ hq
  obtain ⟨_, _, hopen, htail, rfl⟩ := leaves_seq.1 h
  obtain ⟨_, _, hitems, hclose, rfl⟩ := leaves_seq.1 htail
  obtain ⟨_, _, hfirst, hmore, rfl⟩ := leaves_seq.1 hitems
  obtain ⟨rounds, hrounds, rfl⟩ := leaves_many.1 hmore
  rw [leaves_text.1 hopen, leaves_text.1 hclose, List.nil_append, List.append_nil]
  intro p hp
  rcases List.mem_append.1 hp with hp | hp
  · exact hnumber hfirst p hp
  · obtain ⟨round, hround, hp⟩ := List.mem_flatten.1 hp
    obtain ⟨_, _, hcomma, hnext, rfl⟩ := leaves_seq.1 (hrounds round hround)
    rw [leaves_text.1 hcomma, List.nil_append] at hp
    exact hnumber hnext p hp

theorem exists_default {value : Piece Rule} (h : Left grammar .loose .defaultValue value)
    (type : PropertyType) : ∃ v, value.inner = [v] ∧ (defaultOf? type v).isSome = true := by
  rcases leaves_alt.1 h.inner with h | h
  · obtain ⟨v, hinner, hv⟩ := (leaves_kept (by decide) (by decide)).1 h
    obtain ⟨xs, hxs⟩ := exists_mapM fun n hn =>
      have ⟨m, _, hm⟩ := exists_number (components_of_vector hv.inner n hn)
      ⟨m.value, hm⟩
    refine ⟨v, hinner, ?_⟩
    unfold defaultOf?
    rw [hv.rule]
    dsimp only
    rw [hxs]
    rfl
  rcases leaves_alt.1 h with h | h
  · obtain ⟨v, hinner, hv⟩ := (leaves_kept (by decide) (by decide)).1 h
    refine ⟨v, hinner, ?_⟩
    unfold defaultOf?
    rw [hv.rule]
    rfl
  · obtain ⟨v, hinner, hv⟩ := (leaves_kept (by decide) (by decide)).1 h
    obtain ⟨n, -, hn⟩ := exists_number hv
    refine ⟨v, hinner, ?_⟩
    unfold defaultOf?
    rw [hv.rule]
    dsimp only
    rw [hn]
    rfl

/-! ### Pieces in their frame -/

variable {text : List Char} {pieces : List (Piece Rule)}

theorem withType?_range {type : Piece Rule} (r : RangeFrame type) (d : Declaration) :
    withType? d type =
      some { d with
        type := .range
        range := some { min := r.least.value, max := r.greatest.value } } := by
  unfold withType?
  rw [r.inner]
  dsimp only
  rw [if_pos r.isRange, r.bounds]
  dsimp only
  rw [r.lo_chars, r.hi_chars, Numeral.number?_chars, Numeral.number?_chars]
  rfl

theorem withType?_token {type token : Piece Rule} (hinner : type.inner = [token])
    (htoken : token.rule = .typeToken) (d : Declaration) :
    withType? d type = some { d with type := typeOfToken token.text } := by
  unfold withType?
  rw [hinner]
  dsimp only
  rw [if_neg (by rw [htoken]; decide)]

theorem foldlM_attributes {attributes : List (Piece Rule)}
    (h : ∀ p ∈ attributes, Left grammar .loose .attributeItem p) (d : Declaration) :
    attributes.foldlM withPiece? d = some d := by
  induction attributes with
  | nil => rfl
  | cons p attributes ih =>
    rw [List.forall_mem_cons] at h
    have hp : withPiece? d p = some d := by
      unfold withPiece?
      rw [h.1.rule]
    rw [List.foldlM_cons, hp]
    exact ih h.2

def RangeTold (type : Piece Rule) (range : Option ValueRange) : Prop :=
  (∃ r : RangeFrame type, range = some { min := r.least.value, max := r.greatest.value }) ∨
    (∃ token : Piece Rule, type.inner = [token] ∧ token.rule = .typeToken) ∧ range = none

theorem exists_plain (f : Frame text pieces) :
    ∃ d, pieces.foldlM withPiece? {} = some d ∧ d.identifier = f.name.text ∧
      d.displayName = some f.shown.text ∧ RangeTold f.type d.range := by
  let head : Declaration := { identifier := f.name.text, displayName := some f.shown.text }
  have hfold : ∀ d, withType? head f.type = some d → pieces.foldlM withPiece? {} = some d := by
    intro d hd
    have hname : withPiece? {} f.name = some { identifier := f.name.text } := by
      unfold withPiece?
      rw [f.isName.rule]
    have hdisplay : withPiece? { identifier := f.name.text } f.display = some head := by
      unfold withPiece?
      rw [f.isDisplay, f.display_inner]
      rfl
    have htype : withPiece? head f.type = some d := by
      unfold withPiece?
      rw [f.isType]
      exact hd
    have hvalue : withPiece? d f.value = some d := by
      unfold withPiece?
      rw [f.isValue.rule]
    have hstop : withPiece? d f.stop = some d := by
      unfold withPiece?
      rw [f.isStop]
    rw [f.pieces_eq, List.foldlM_append, foldlM_attributes f.isAttribute]
    simp [List.foldlM_cons, hname, hdisplay, htype, hvalue, hstop]
  rcases f.type_inner with ⟨⟨r⟩⟩ | ⟨token, hinner, htoken⟩
  · exact ⟨_, hfold _ (withType?_range r head), rfl, rfl, .inl ⟨r, rfl⟩⟩
  · exact ⟨_, hfold _ (withType?_token hinner htoken head), rfl, rfl,
      .inr ⟨⟨token, hinner, htoken⟩, rfl⟩⟩

theorem filter_attributes (f : Frame text pieces) :
    pieces.filter (·.rule == .attributeItem) = f.attributes := by
  have hall : f.attributes.filter (·.rule == .attributeItem) = f.attributes :=
    List.filter_eq_self.2 fun p hp => by rw [(f.isAttribute p hp).rule]; rfl
  refine (congrArg _ f.pieces_eq).trans ?_
  rw [List.filter_append, hall]
  simp [f.isName.rule, f.isDisplay, f.isType, f.isValue.rule, f.isStop]

theorem find_default (f : Frame text pieces) :
    pieces.reverse.find? (·.rule == .defaultValue) = some f.value := by
  refine (congrArg (List.find? _ ∘ List.reverse) f.pieces_eq).trans ?_
  simp [f.isStop, f.isValue.rule]

theorem exists_ofPieces? (f : Frame text pieces) :
    ∃ d, ofPieces? pieces = some d ∧ d.identifier = f.name.text ∧
      d.displayName = some f.shown.text ∧ RangeTold f.type d.range := by
  obtain ⟨attributes, hattributes⟩ := exists_mapM fun p hp => exists_attribute (f.isAttribute p hp)
  obtain ⟨plain, hplain, hidentifier, hshown, hrange⟩ := exists_plain f
  let d := attributes.foldl (fun d a => applyAttribute d a.1 a.2) plain
  obtain ⟨v, hinner, hsome⟩ := exists_default f.isValue d.type
  obtain ⟨default, hdefault⟩ := Option.isSome_iff_exists.1 hsome
  have hheading : heading d = heading plain := heading_foldl attributes plain
  obtain ⟨hsame, hheading⟩ := Prod.mk.inj hheading
  obtain ⟨hsame', hsame''⟩ := Prod.mk.inj hheading
  refine ⟨{ d with default }, ?_, hsame.trans hidentifier, hsame'.trans hshown, ?_⟩
  · unfold ofPieces?
    rw [filter_attributes f, hattributes, find_default f, hplain]
    simp only [hinner, Option.bind_eq_bind, Option.bind_some]
    change (defaultOf? d.type v).bind _ = _
    rw [hdefault]
    rfl
  · dsimp only
    rw [hsame'']
    exact hrange

/-! ### Lines -/

theorem contains_of_frame (f : Frame text pieces) :
    (text.contains '_' && text.contains '=') = true := by
  have hname : '_' ∈ f.name.chars := by
    obtain ⟨_, _, hfirst, -, hchars⟩ := spells_seq.1 (f.isName.chars (by decide))
    rw [hchars, spells_text.1 hfirst]
    simp
  have hunderscore : '_' ∈ text := f.spaced.mem f.name.chars (by simp) '_' hname
  have hequals : '=' ∈ text := f.spaced.mem ['='] (by simp) '=' (by simp)
  simpa using ⟨hunderscore, hequals⟩

/-- What the grammar takes is read, and read as it is laid out. -/
theorem exists_told {line text : List Char} (hline : Stripped false line text) {stop : Cursor}
    {pieces : List (Piece Rule)}
    (h : Answers grammar .loose (.rule .propertyLine) { rest := trim text } (some (stop, pieces))) :
    ∃ (root : Piece Rule) (f : Frame (trim text) root.inner) (d : Declaration),
      pieces = [root] ∧ ofLine? line = some d ∧ d.identifier = f.name.text ∧
        d.displayName = some f.shown.text ∧ RangeTold f.type d.range := by
  obtain ⟨root, rfl, ⟨f⟩⟩ := frame_of_answers h
  obtain ⟨d, hd, htold⟩ := exists_ofPieces? f
  have hmatch := (match_eq_ok_iff bounded (by decide)).2 ⟨stop, h⟩
  refine ⟨root, f, d, rfl, ?_, htold⟩
  unfold ofLine?
  rw [(stripped_dropComment false line).unique hline, if_pos (contains_of_frame f), hmatch]
  exact hd

theorem exists_answers_of_isSome {line text : List Char} (hline : Stripped false line text)
    (h : (ofLine? line).isSome = true) :
    ∃ stop pieces, Answers grammar .loose (.rule .propertyLine) { rest := trim text }
      (some (stop, pieces)) := by
  unfold ofLine? at h
  rw [(stripped_dropComment false line).unique hline] at h
  dsimp only at h
  split at h
  · split at h
    · rename_i hmatch
      obtain ⟨stop, hstop⟩ := answers_of_match hmatch
      exact ⟨stop, _, hstop⟩
    · cases h
  · cases h

/-- A line is a declaration exactly if the grammar takes what is left of it without comment and
surrounding blanks. The name, the text to show and the bounds are then those of the match. -/
theorem ofLine?_isSome_iff_answers {line text : List Char} (hline : Stripped false line text) :
    ((ofLine? line).isSome = true ↔
      ∃ stop pieces, Answers grammar .loose (.rule .propertyLine) { rest := trim text }
        (some (stop, pieces))) ∧
    ∀ stop pieces, Answers grammar .loose (.rule .propertyLine) { rest := trim text }
        (some (stop, pieces)) →
      ∃ (root : Piece Rule) (f : Frame (trim text) root.inner) (d : Declaration),
        pieces = [root] ∧ ofLine? line = some d ∧ d.identifier = f.name.text ∧
          d.displayName = some f.shown.text ∧ RangeTold f.type d.range := by
  refine ⟨⟨exists_answers_of_isSome hline, ?_⟩, fun stop pieces => exists_told hline⟩
  rintro ⟨stop, pieces, h⟩
  obtain ⟨root, f, d, -, hd, -⟩ := exists_told hline h
  rw [hd]
  rfl

/-- Two attributes, slashes in the text to show, a range with blanks, and a comment. -/
theorem ofLine?_isSome_iff_answers_range :
    let line := " [Toggle] [E(A, 0)]_Amt(\"a//b\", range (-.5F ,1e2f) )= 0. // \"note".toList
    let text := " [Toggle] [E(A, 0)]_Amt(\"a//b\", range (-.5F ,1e2f) )= 0. ".toList
    Stripped false line text ∧
      ∃ (root : Piece Rule) (f : Frame (trim text) root.inner) (d : Declaration),
        ofLine? line = some d ∧ d.identifier = f.name.text ∧ d.displayName = some f.shown.text ∧
          RangeTold f.type d.range ∧
          (d.identifier, d.displayName, d.range.map fun r => (r.min.toBits, r.max.toBits)) =
            ("_Amt", some "a//b", some ((-0.5 : Float).toBits, (100 : Float).toBits)) := by
  intro line text
  have hline : Stripped false line text := by
    have hdrop : dropComment false line = text := by decide
    exact hdrop ▸ stripped_dropComment false line
  have hvalue : (ofLine? line).map (fun d =>
      (d.identifier, d.displayName, d.range.map fun r => (r.min.toBits, r.max.toBits))) =
      some ("_Amt", some "a//b", some ((-0.5 : Float).toBits, (100 : Float).toBits)) := by
    decide
  have hsome : (ofLine? line).isSome = true := by
    have h := congrArg Option.isSome hvalue
    rwa [Option.isSome_map] at h
  obtain ⟨hiff, hread⟩ := ofLine?_isSome_iff_answers hline
  obtain ⟨stop, pieces, h⟩ := hiff.1 hsome
  obtain ⟨root, f, d, -, hd, hidentifier, hshown, hrange⟩ := hread stop pieces h
  rw [hd] at hvalue
  exact ⟨hline, root, f, d, hd, hidentifier, hshown, hrange, Option.some.inj hvalue⟩

end PanelSchema.Declaration
