import PanelSchema.Proofs.Source.Blanks
import PanelSchema.Proofs.Source.Outline

/-!
Words and operators in a text to which something is added. If the characters around the place
belong to no token together, every token before it is read as it was.
-/

namespace PanelSchema

namespace Insertion

variable (i : Insertion)

/-- What stands behind the place, before or after something is added. -/
def Onward (text : List Char) : Prop :=
  text = i.back ∨ text = i.added ++ i.back

/-- No two characters that `joined` puts together stand around the place. -/
def Sunders (joined : Char → Char → Bool) : Prop :=
  ∀ x ∈ i.front.getLast?, ∀ text, i.Onward text → ∀ y ∈ text.head?, joined x y = false

end Insertion

namespace Source

open Grammar Insertion
open Phrase (anyBut many1)

/-- Two characters that may stand next to each other in one token, or of which the second keeps
the first from being one. -/
def joints : List (Char × Char) :=
  [('?', '?'), ('?', '.'), ('?', '='), ('+', '+'), ('+', '='), ('-', '-'), ('-', '='), ('-', '>'),
    ('*', '='), ('/', '='), ('%', '='), ('|', '|'), ('|', '='), ('&', '&'), ('&', '='), ('^', '='),
    ('=', '='), ('=', '>'), ('!', '='), ('<', '<'), ('<', '='), ('>', '=')]

/-- Nothing stands alone behind an at sign or a dollar sign. -/
def isJoint (x y : Char) : Bool :=
  isNamePart x && isNamePart y || x == '@' || x == '$' || joints.contains (x, y)

section

variable {i : Insertion} {sp : Spacing} {a b : Phrase Rule} {w cs text : List Char}
  {joined : Char → Char → Bool}

theorem getLast_of_suffix (hsuffix : w <:+ i.front) (hw : w ≠ []) :
    i.front.getLast? = w.getLast? := by
  obtain ⟨front, hfront⟩ := hsuffix
  rw [← hfront, List.getLast?_append_of_ne_nil _ hw]

/-! ### Texts -/

theorem mem_zip_tail {x y : Char} {ds : List Char} (hx : w.getLast? = some x) :
    (x, y) ∈ (w ++ y :: ds).zip (w ++ y :: ds).tail := by
  induction w with
  | nil => cases hx
  | cons z w ih =>
    cases w with
    | nil =>
      cases hx
      simp
    | cons z' w => exact List.mem_cons_of_mem _ (ih hx)

theorem prefix_of_sunders (hsunders : i.Sunders joined) (hsuffix : w <:+ i.front) (hw : w ≠ [])
    (hcs : (cs.zip cs.tail).all (fun p => joined p.1 p.2) = true) (htext : i.Onward text)
    (hpre : cs <+: w ++ text) : cs <+: w := by
  rcases List.prefix_or_prefix_of_prefix hpre (List.prefix_append w text) with h | ⟨ds, rfl⟩
  · exact h
  · cases ds with
    | nil => simp
    | cons y ds =>
      obtain ⟨x, hx⟩ : ∃ x, w.getLast? = some x := by
        simpa [← Option.isSome_iff_exists] using hw
      obtain ⟨tail, htail⟩ := hpre
      have hy : text = y :: (ds ++ tail) := by
        rw [List.append_assoc] at htail
        exact (List.append_cancel_left htail).symm
      have hjoined := List.all_eq_true.1 hcs _ (mem_zip_tail hx)
      have hnot := hsunders x ((getLast_of_suffix hsuffix hw).trans hx) text htext y
        (by rw [hy]; rfl)
      rw [hnot] at hjoined
      cases hjoined

theorem keeps_joined (hsunders : i.Sunders joined) (hsuffix : w <:+ i.front) (hw : w ≠ [])
    (hcs : (cs.zip cs.tail).all (fun p => joined p.1 p.2) = true) :
    i.Keeps grammar sp (.text cs) w :=
  keeps_text (prefix_of_sunders hsunders hsuffix hw hcs (.inl rfl))
    (prefix_of_sunders hsunders hsuffix hw hcs (.inr rfl))

/-! ### What small phrases read -/

theorem reads_never {ps : List (Piece Rule)} (h : Reads grammar sp (.never a) cs ps) : cs = [] := by
  obtain ⟨c, d, h, htook⟩ := h
  generalize hy : (some (d, ps) : Answer Rule) = y at h
  cases h with
  | never =>
    split at hy <;> cases hy
    exact htook.unique .rfl

theorem reads_opt {ps : List (Piece Rule)} (h : Reads grammar sp (.opt a) cs ps) :
    cs = [] ∧ ps = [] ∨ Reads grammar sp a cs ps := by
  obtain ⟨c, d, h, htook⟩ := h
  generalize hy : (some (d, ps) : Answer Rule) = y at h
  cases h with
  | present h => exact .inr ⟨c, d, hy ▸ h, htook⟩
  | absent =>
    cases hy
    exact .inl ⟨htook.unique .rfl, rfl⟩

theorem reads_one {k : CharClass} {ps : List (Piece Rule)}
    (h : Reads grammar sp (.one k) cs ps) : ∃ x, cs = [x] ∧ k.holds x = true := by
  obtain ⟨c, d, h, htook⟩ := h
  generalize hy : (some (d, ps) : Answer Rule) = y at h
  cases h with
  | one =>
    obtain ⟨e, he, hd⟩ := Option.map_eq_some_iff.1 hy.symm
    cases hd
    obtain ⟨x, hx, htook'⟩ := Cursor.took_next he
    exact ⟨x, htook.unique htook', hx⟩

/-! ### At the place -/

theorem ne_sign_of_sunders (hsunders : i.Sunders isJoint) (hadded : i.added ≠ []) {x : Char}
    (hx : i.front.getLast? = some x) : x ≠ '@' ∧ x ≠ '$' := by
  obtain ⟨z, added, hz⟩ := List.exists_cons_of_ne_nil hadded
  have h := hsunders x hx _ (.inr rfl) z (by simp [hz])
  simp only [isJoint, Bool.or_eq_false_iff, beq_eq_false_iff_ne] at h
  exact ⟨h.1.1.2, h.1.2⟩

theorem keeps_refused (h : ∀ text, i.Onward text → Refuses grammar sp a text) :
    i.Keeps grammar sp a [] :=
  keeps_of_refuses (h _ (.inl rfl)) (h _ (.inr rfl))

/-! ### Phrases with joined characters only -/

/-- A character, or any of a class. -/
inductive Glyph where
  | one (k : CharClass)
  | exactly (x : Char)

namespace Glyph

def holds : Glyph → Char → Bool
  | .one k, x => k.holds x
  | .exactly y, x => x == y

/-- Each of the first characters is joined to each of the second. -/
def joins : Glyph → Glyph → Bool
  | .one k, .one l => k != .any && l != .any
  | .one k, .exactly y => k != .any && isNamePart y
  | .exactly x, .one l => x == '@' || x == '$' || isNamePart x && l != .any
  | .exactly x, .exactly y => isJoint x y

end Glyph

theorem isNamePart_of_class {k : CharClass} {x : Char} (hk : k ≠ .any) (hx : k.holds x = true) :
    isNamePart x = true := by
  cases k with
  | any => exact absurd rfl hk
  | letter | digit | alphanumeric =>
    rw [CharClass.holds] at hx
    simp_all [isNamePart, Char.isAlphanum]
  | hexDigit =>
    simp only [CharClass.holds, Bool.or_eq_true, Bool.and_eq_true, decide_eq_true_eq] at hx
    rcases hx with (hx | hx) | hx
    · simp [isNamePart, Char.isAlphanum, hx]
    · have hlower : x.isLower = true := by
        delta Char.isLower
        simp only [Bool.and_eq_true, decide_eq_true_eq]
        exact ⟨hx.1, UInt32.le_trans hx.2 (by decide)⟩
      have hletter : x.isAlpha = true := by
        delta Char.isAlpha
        rw [hlower, Bool.or_true]
      simp [isNamePart, Char.isAlphanum, hletter]
    · have hupper : x.isUpper = true := by
        delta Char.isUpper
        simp only [decide_eq_true_eq]
        exact ⟨hx.1, UInt32.le_trans hx.2 (by decide)⟩
      have hletter : x.isAlpha = true := by
        delta Char.isAlpha
        rw [hupper, Bool.true_or]
      simp [isNamePart, Char.isAlphanum, hletter]

theorem isJoint_of_joins {p q : Glyph} {x y : Char} (h : p.joins q = true)
    (hx : p.holds x = true) (hy : q.holds y = true) : isJoint x y = true := by
  cases p with
  | one k =>
    cases q with
    | one l =>
      simp only [Glyph.joins, Bool.and_eq_true, bne_iff_ne] at h
      simp [isJoint, isNamePart_of_class h.1 hx, isNamePart_of_class h.2 hy]
    | exactly z =>
      simp only [Glyph.joins, Bool.and_eq_true, bne_iff_ne] at h
      obtain rfl := beq_iff_eq.1 hy
      simp [isJoint, isNamePart_of_class h.1 hx, h.2]
  | exactly z =>
    obtain rfl := beq_iff_eq.1 hx
    cases q with
    | one l =>
      simp only [Glyph.joins, Bool.or_eq_true, Bool.and_eq_true, bne_iff_ne] at h
      rcases h with (hz | hz) | ⟨hz, hl⟩
      · simp [isJoint, hz]
      · simp [isJoint, hz]
      · simp [isJoint, hz, isNamePart_of_class hl hy]
    | exactly z =>
      obtain rfl := beq_iff_eq.1 hy
      exact h

/-- What is known of a character that stands behind such a one and is not joined to it. -/
def Glyph.clue (p : Glyph) : Clue where
  holds y := ∃ x, p.holds x = true ∧ isJoint x y = false
  is? y := if p.joins (.exactly y) then some false else none
  isOf? k := if k = .any then some true else if p.joins (.one k) then some false else none
  is_sound := by
    rintro y z b ⟨x, hx, hjoint⟩ h
    split at h <;> cases h
    rename_i hjoins
    rw [beq_eq_false_iff_ne]
    rintro rfl
    rw [isJoint_of_joins hjoins hx (beq_self_eq_true z)] at hjoint
    cases hjoint
  isOf_sound := by
    rintro y k b ⟨x, hx, hjoint⟩ h
    split at h
    · rename_i hk
      cases h
      rw [hk]
      rfl
    · split at h <;> cases h
      rename_i hjoins
      rw [Bool.eq_false_iff]
      intro hy
      rw [isJoint_of_joins hjoins hx hy] at hjoint
      cases hjoint

/-- Behind such a character, or at the end of the text, the phrase is refused or takes nothing. -/
def Glyph.idles (b : Phrase Rule) (p : Glyph) : Bool :=
  [Spacing.atomic, .compound].all fun sp =>
    grammar.glance false 60 sp b [p.clue] == grammar.glance true 60 sp b [] &&
      (grammar.glance true 60 sp b [] matches .refused | .took 0 true)

/-- What is known of a phrase inside tokens: whether all characters that stand next to each other
in a match are joined, whether a match takes something, and what it ends with. -/
structure Edges where
  whole : Bool
  fills : Bool
  ends : List Glyph

def edges (rules : Rule → Edges) : Phrase Rule → Edges
  | .text cs =>
    ⟨(cs.zip cs.tail).all fun p => isJoint p.1 p.2, !cs.isEmpty, cs.getLast?.toList.map .exactly⟩
  | .one k => ⟨true, true, [.one k]⟩
  | .rule r => rules r
  | .seq a b =>
    ⟨(edges rules a).whole && (edges rules b).whole && (edges rules a).ends.all (Glyph.idles b),
      (edges rules a).fills || (edges rules b).fills,
      (if (edges rules b).fills then [] else (edges rules a).ends) ++ (edges rules b).ends⟩
  | .alt a b =>
    ⟨(edges rules a).whole && (edges rules b).whole, (edges rules a).fills && (edges rules b).fills,
      (edges rules a).ends ++ (edges rules b).ends⟩
  | .opt a => ⟨(edges rules a).whole, false, (edges rules a).ends⟩
  | .many a =>
    ⟨(edges rules a).whole && (edges rules a).fills &&
        (edges rules a).ends.all (Glyph.idles (.many a)), false, (edges rules a).ends⟩
  | .never a => ⟨(edges rules a).whole, false, []⟩
  | _ => ⟨false, false, [.one .any]⟩

def ruleEdges : Nat → Rule → Edges
  | 0, _ => ⟨false, false, [.one .any]⟩
  | n + 1, r => edges (ruleEdges n) (body r)

theorem spelled_edges {n : Nat} (h : Spells grammar a cs) :
    ((edges (ruleEdges n) a).fills = true → cs ≠ []) ∧
      ∀ x ∈ cs.getLast?, ∃ p ∈ (edges (ruleEdges n) a).ends, p.holds x = true := by
  have hany : ∀ x, ∃ p ∈ [Glyph.one .any], p.holds x = true := fun x => ⟨.one .any, by simp, rfl⟩
  induction h generalizing n with
  | text cs =>
    refine ⟨by simp [edges], fun x hx => ⟨.exactly x, ?_, beq_self_eq_true x⟩⟩
    simp [edges, show cs.getLast? = some x from hx]
  | one hk => exact ⟨by simp, fun x hx => by cases hx; exact ⟨_, List.mem_singleton_self _, hk⟩⟩
  | caseless => exact ⟨nofun, fun x _ => hany x⟩
  | rule _ ih =>
    cases n with
    | zero => exact ⟨nofun, fun x _ => hany x⟩
    | succ n => exact ih
  | @seq a b cs ds _ _ iha ihb =>
    obtain ⟨hfills, hends⟩ := @iha n
    obtain ⟨hfills', hends'⟩ := @ihb n
    simp only [edges, Bool.or_eq_true, List.mem_append]
    refine ⟨?_, fun x hx => ?_⟩
    · rintro (h | h)
      · simp [hfills h]
      · simp [hfills' h]
    · by_cases hempty : ds = []
      · subst hempty
        rw [if_neg fun h => hfills' h rfl]
        obtain ⟨p, hp, hx⟩ := hends x (by simpa using hx)
        exact ⟨p, .inl hp, hx⟩
      · rw [List.getLast?_append_of_ne_nil _ hempty] at hx
        obtain ⟨p, hp, hx⟩ := hends' x hx
        exact ⟨p, .inr hp, hx⟩
  | left _ ih =>
    simp only [edges, Bool.and_eq_true, List.mem_append]
    refine ⟨fun h => (@ih n).1 h.1, fun x hx => ?_⟩
    obtain ⟨p, hp, hx⟩ := (@ih n).2 x hx
    exact ⟨p, .inl hp, hx⟩
  | right _ ih =>
    simp only [edges, Bool.and_eq_true, List.mem_append]
    refine ⟨fun h => (@ih n).1 h.2, fun x hx => ?_⟩
    obtain ⟨p, hp, hx⟩ := (@ih n).2 x hx
    exact ⟨p, .inr hp, hx⟩
  | present _ ih => exact ⟨nofun, (@ih n).2⟩
  | @more a cs ds _ _ iha ih =>
    refine ⟨nofun, fun x hx => ?_⟩
    by_cases hempty : ds = []
    · subst hempty
      exact (@iha n).2 x (by simpa using hx)
    · rw [List.getLast?_append_of_ne_nil _ hempty] at hx
      exact (@ih n).2 x hx
  | startOfInput | endOfInput | absent | done | ahead | never => exact ⟨nofun, nofun⟩

section

variable {ps : List (Piece Rule)}

theorem last_of_reads (n : Nat) (hsp : sp ≠ .loose) (h : Reads grammar sp a cs ps) (hne : cs ≠ []) :
    ∃ x, cs.getLast? = some x ∧ ∃ p ∈ (edges (ruleEdges n) a).ends, p.holds x = true := by
  obtain ⟨x, hx⟩ : ∃ x, cs.getLast? = some x := by simpa [← Option.isSome_iff_exists] using hne
  exact ⟨x, hx, (spelled_edges ((h.explained blankLeavesNothing).2 hsp)).2 x hx⟩

variable (hsunders : i.Sunders isJoint)

include hsunders

theorem tells_idle {p : Glyph} {x : Char} (hp : p.idles a = true) (hx : p.holds x = true)
    (hlast : i.front.getLast? = some x) (hsp : sp ≠ .loose) (htext : i.Onward text) :
    Tells grammar sp a [] text (grammar.glance true 60 sp a []) ∧
      (grammar.glance true 60 sp a [] = .refused ∨ grammar.glance true 60 sp a [] = .took 0 true) := by
  have hmem : sp ∈ [Spacing.atomic, .compound] := by cases sp <;> simp_all
  have hboth := List.all_eq_true.1 hp sp hmem
  rw [Bool.and_eq_true, beq_iff_eq] at hboth
  obtain ⟨heq, hidle⟩ := hboth
  have hcases : grammar.glance true 60 sp a [] = .refused ∨
      grammar.glance true 60 sp a [] = .took 0 true := by
    revert hidle
    split <;> simp_all
  refine ⟨?_, hcases⟩
  cases text with
  | nil => exact tells_glance grammar true 60 sp a fun _ => rfl
  | cons y text =>
    have hfits : Fits false [p.clue] (y :: text) :=
      ⟨y, text, rfl, ⟨x, hx, hsunders x hlast _ htext y rfl⟩, nofun⟩
    have htells := tells_glance grammar false 60 sp a hfits
    rw [heq] at htells
    rcases hcases with h | h <;> rw [h] at htells ⊢
    · exact htells
    · exact ⟨Nat.le_refl 0, htells.2⟩

theorem keeps_idle (n : Nat) (hsp : sp ≠ .loose) (h : Reads grammar sp a cs ps) (hne : cs ≠ [])
    (hsuffix : cs <:+ i.front) (hidles : (edges (ruleEdges n) a).ends.all (Glyph.idles b) = true) :
    i.Keeps grammar sp b [] := by
  obtain ⟨x, hx, p, hp, hholds⟩ := last_of_reads n hsp h hne
  have htells := fun text (htext : i.Onward text) =>
    tells_idle hsunders (List.all_eq_true.1 hidles p hp) hholds
      ((getLast_of_suffix hsuffix hne).trans hx) hsp htext
  rcases (htells _ (.inl rfl)).2 with hy | hy
  · simp only [hy] at htells
    exact keeps_refused fun text htext => (htells text htext).1
  · simp only [hy] at htells
    have htakes : ∀ text, i.Onward text → Takes grammar sp b [] text Bare := fun text htext =>
      (htells text htext).1.2.mono fun ps hps => hps rfl
    exact keeps_of_takes (w := []) (htakes _ (.inl rfl)) (htakes _ (.inr rfl))

theorem keeps_edges {n : Nat} (hrules : ∀ {r sp w}, (ruleEdges n r).whole = true → sp ≠ .loose →
      w <:+ i.front → w ≠ [] → i.Keeps grammar sp (.rule r) w)
    (hwhole : (edges (ruleEdges n) a).whole = true) (hsp : sp ≠ .loose) (hsuffix : w <:+ i.front)
    (hw : w ≠ []) : i.Keeps grammar sp a w := by
  induction a generalizing w with
  | text cs => exact keeps_joined hsunders hsuffix hw hwhole
  | one k => exact keeps_one hw
  | rule r => exact hrules hwhole hsp hsuffix hw
  | seq a b iha ihb =>
    simp only [edges, Bool.and_eq_true] at hwhole
    refine Keeps.seq hsp (iha hwhole.1.1 hsuffix hw) ?_
    rintro cs w' ps rfl hreads
    by_cases hw' : w' = []
    · subst hw'
      rw [List.append_nil] at hsuffix hw
      exact keeps_idle hsunders n hsp hreads hw hsuffix hwhole.2
    · exact ihb hwhole.1.2 ((List.suffix_append cs w').trans hsuffix) hw'
  | alt a b iha ihb =>
    simp only [edges, Bool.and_eq_true] at hwhole
    exact .alt (iha hwhole.1 hsuffix hw) (ihb hwhole.2 hsuffix hw)
  | opt a ih => exact (ih hwhole hsuffix hw).opt
  | never a ih => exact (ih hwhole hsuffix hw).never
  | many a ih =>
    simp only [edges, Bool.and_eq_true] at hwhole
    have hsolid := fun {cs ps} (h : Reads grammar sp a cs ps) =>
      (spelled_edges ((h.explained blankLeavesNothing).2 hsp)).1 hwhole.1.2
    exact keeps_run hsp (fun cs ps => hsolid) (fun w' hw' hne => ih hwhole.1.1 hw' hne)
      (fun cs ps h hcs => keeps_idle hsunders n hsp h (hsolid h) hcs hwhole.2) hsuffix hw
  | _ => cases hwhole

theorem keeps_ruleEdges (n : Nat) {r : Rule} (hwhole : (ruleEdges n r).whole = true)
    (hsp : sp ≠ .loose) (hsuffix : w <:+ i.front) (hw : w ≠ []) :
    i.Keeps grammar sp (.rule r) w := by
  induction n generalizing r sp w with
  | zero => cases hwhole
  | succ n ih =>
    refine .rule (keeps_edges hsunders ih hwhole ?_ hsuffix hw)
    change innerSpacing (style r) sp ≠ .loose
    revert hsp
    cases style r <;> cases sp <;> decide

theorem keeps_whole (hwhole : (edges (ruleEdges 2) a).whole = true) (hsp : sp ≠ .loose)
    (hsuffix : w <:+ i.front) (hw : w ≠ []) : i.Keeps grammar sp a w :=
  keeps_edges hsunders (keeps_ruleEdges hsunders 2) hwhole hsp hsuffix hw

end

/-! ### Words, operators and names -/

def wordRules : List Rule :=
  [.keyword, .kwReturn, .kwNew, .kwElse, .kwType, .kwEnum, .kwRef, .modifier, .boolean,
    .nullLiteral]

def operatorRules : List Rule :=
  [.assignOp, .ternaryOp, .opCoalesce, .opOr, .opAnd, .opBitOr, .opXor, .opBitAnd, .opEquality,
    .opAdditive, .opMultiplicative, .prefixOp]

theorem keeps_token (hsunders : i.Sunders isJoint) {r : Rule}
    (hr : r ∈ .identifier :: wordRules ++ operatorRules) (hsuffix : w <:+ i.front) (hw : w ≠ []) :
    i.Keeps grammar sp (.rule r) w := by
  have hrules : ∀ r ∈ Rule.identifier :: wordRules ++ operatorRules,
      style r = .atomic ∧ (edges (ruleEdges 2) (body r)).whole = true := by decide
  obtain ⟨hstyle, hwhole⟩ := hrules r hr
  have hatomic : grammar.style r = .atomic := hstyle
  apply Keeps.rule
  rw [hatomic]
  exact keeps_whole hsunders hwhole (by cases sp <;> decide) hsuffix hw

theorem spells_identChar (h : Spells grammar (.rule .identChar) cs) :
    ∀ x ∈ cs, isNamePart x = true := by
  cases h with
  | rule h =>
    rcases spells_alt.1 (show Spells grammar (.alt (.one .alphanumeric) (.text ['_'])) cs from h) with
      h | h
    · cases h with
      | one hx => simpa [isNamePart] using .inl hx
    · intro x hx
      rw [spells_text.1 h, List.mem_singleton] at hx
      rw [hx]
      rfl

theorem spells_identStart (h : Spells grammar (.rule .identStart) cs) :
    ∃ x, cs = [x] ∧ isNameStart x = true := by
  cases h with
  | rule h =>
    rcases spells_alt.1 (show Spells grammar (.alt (.one .letter) (.text ['_'])) cs from h) with
      h | h
    · cases h with
      | one hx => exact ⟨_, rfl, by simpa [isNameStart] using .inl hx⟩
    · exact ⟨'_', spells_text.1 h, rfl⟩

theorem reads_identifier {ps : List (Piece Rule)} (hsp : sp ≠ .loose)
    (h : Reads grammar sp (.rule .identifier) cs ps) :
    ∃ sign x rest, cs = sign ++ x :: rest ∧ isNameStart x = true ∧
      ∀ y ∈ rest, isNamePart y = true := by
  cases (h.explained blankLeavesNothing).2 hsp with
  | rule h =>
    obtain ⟨sign, _, -, htail, rfl⟩ := spells_seq.1 h
    obtain ⟨_, _, hnever, hname, rfl⟩ := spells_seq.1 htail
    obtain ⟨_, rest, hstart, hrest, rfl⟩ := spells_seq.1 hname
    cases hnever
    obtain ⟨x, rfl, hx⟩ := spells_identStart hstart
    exact ⟨sign, x, rest, rfl, hx, spells_many_forall (fun _ => spells_identChar) hrest⟩

/-- A sign for greater is no operator where another one follows, although two type argument lists
may end there. -/
theorem keeps_opRelational (hsunders : i.Sunders isJoint) (hsuffix : w <:+ i.front) (hw : w ≠ [])
    (hgreater : w = ['>'] → ∀ text, i.Onward text → ∀ y ∈ text.head?, y ≠ '>') :
    i.Keeps grammar sp (.rule .opRelational) w := by
  apply Keeps.rule
  change i.Keeps grammar .atomic (body .opRelational) w
  have hgreater' : i.Keeps grammar .atomic
      (.seq (.text ['>']) (.never (.alt (.text ['>']) (.text ['='])))) w := by
    refine Keeps.seq (by decide) (keeps_joined hsunders hsuffix hw rfl) ?_
    rintro cs w' ps rfl hreads
    obtain ⟨rfl, -⟩ := hreads.text
    by_cases hw' : w' = []
    · subst hw'
      refine (keeps_refused fun text htext => ?_).never
      refine .alt (refuses_text ?_) (refuses_text ?_)
      · rintro ⟨tail, rfl⟩
        exact hgreater rfl _ htext '>' rfl rfl
      · rintro ⟨tail, rfl⟩
        have h := hsunders '>' (getLast_of_suffix hsuffix hw) _ htext '=' rfl
        exact absurd h (by decide)
    · have hsuffix' := (List.suffix_append ['>'] w').trans hsuffix
      exact (Keeps.alt (keeps_joined hsunders hsuffix' hw' rfl)
        (keeps_joined hsunders hsuffix' hw' rfl)).never
  refine .alt (keeps_joined hsunders hsuffix hw (by decide))
    (.alt (keeps_joined hsunders hsuffix hw (by decide)) (.alt ?_ hgreater'))
  exact keeps_whole hsunders (by decide) (by decide) hsuffix hw

end

end Source

end PanelSchema
