import Mathlib.Data.List.Forall2
import PanelSchema.Grammar.Match

/-!
What a match leaves behind. The pieces that a phrase leaves are those of the rules in it, in
the order of the text, and a token takes the characters that its phrase spells.
-/

namespace PanelSchema

/-- The characters between two cursors. -/
structure Cursor.Took (c c' : Cursor) (cs : List Char) : Prop where
  rest : c.rest = cs ++ c'.rest
  offset : c'.position.offset = c.position.offset + cs.length

namespace Cursor

variable {c c' d : Cursor} {cs ds : List Char}

theorem Took.rfl : c.Took c [] :=
  ⟨by simp, by simp⟩

theorem Took.trans (h : c.Took d cs) (h' : d.Took c' ds) : c.Took c' (cs ++ ds) := by
  constructor
  · rw [h.rest, h'.rest, List.append_assoc]
  · rw [h'.offset, h.offset, List.length_append]
    omega

theorem took_next {k : CharClass} (h : c.next? k = some c') :
    ∃ x, k.holds x = true ∧ c.Took c' [x] := by
  unfold next? at h
  split at h
  · cases h
  · rename_i x rest hrest
    split at h
    · rename_i hx
      cases h
      exact ⟨x, hx, by simp [hrest], by simp⟩
    · cases h

theorem took_stepOver {same : Char → Char → Bool} (h : stepOver? same cs c = some c') :
    ∃ ds, List.Forall₂ (fun x y => same x y = true) cs ds ∧ c.Took c' ds := by
  induction cs generalizing c with
  | nil =>
    cases h
    exact ⟨[], .nil, .rfl⟩
  | cons x cs ih =>
    rw [stepOver?] at h
    split at h
    · cases h
    · rename_i y rest hrest
      split at h
      · rename_i hsame
        obtain ⟨ds, hds, htook⟩ := ih h
        refine ⟨y :: ds, .cons hsame hds, ?_⟩
        have hfirst : c.Took { position := c.position.advance y, rest } [y] :=
          ⟨by simp [hrest], by simp⟩
        exact hfirst.trans htook
      · cases h

end Cursor

namespace Grammar

variable {ρ : Type} {g : Grammar ρ}

/-- The characters a phrase may take where no blanks are skipped. -/
inductive Spells (g : Grammar ρ) : Phrase ρ → List Char → Prop where
  | text (cs : List Char) : Spells g (.text cs) cs
  | caseless {cs ds : List Char}
      (h : List.Forall₂ (fun x y => (x.toLower == y.toLower) = true) cs ds) :
      Spells g (.caseless cs) ds
  | one {k : CharClass} {x : Char} (h : k.holds x = true) : Spells g (.one k) [x]
  | startOfInput : Spells g .startOfInput []
  | endOfInput : Spells g .endOfInput []
  | rule {r : ρ} {cs : List Char} (h : Spells g (g.body r) cs) : Spells g (.rule r) cs
  | seq {a b : Phrase ρ} {cs ds : List Char} (ha : Spells g a cs) (hb : Spells g b ds) :
      Spells g (.seq a b) (cs ++ ds)
  | left {a b : Phrase ρ} {cs : List Char} (h : Spells g a cs) : Spells g (.alt a b) cs
  | right {a b : Phrase ρ} {cs : List Char} (h : Spells g b cs) : Spells g (.alt a b) cs
  | absent {a : Phrase ρ} : Spells g (.opt a) []
  | present {a : Phrase ρ} {cs : List Char} (h : Spells g a cs) : Spells g (.opt a) cs
  | done {a : Phrase ρ} : Spells g (.many a) []
  | more {a : Phrase ρ} {cs ds : List Char} (ha : Spells g a cs) (hb : Spells g (.many a) ds) :
      Spells g (.many a) (cs ++ ds)
  | ahead {a : Phrase ρ} : Spells g (.ahead a) []
  | never {a : Phrase ρ} : Spells g (.never a) []

section

variable {a b : Phrase ρ} {k : CharClass} {cs ds : List Char}

@[simp] theorem spells_text : Spells g (.text cs) ds ↔ ds = cs :=
  ⟨fun h => by cases h; rfl, fun h => h ▸ .text ds⟩

@[simp] theorem spells_seq :
    Spells g (.seq a b) cs ↔ ∃ ds es, Spells g a ds ∧ Spells g b es ∧ cs = ds ++ es := by
  constructor
  · intro h
    cases h with
    | seq ha hb => exact ⟨_, _, ha, hb, rfl⟩
  · rintro ⟨ds, es, ha, hb, rfl⟩
    exact .seq ha hb

@[simp] theorem spells_alt : Spells g (.alt a b) cs ↔ Spells g a cs ∨ Spells g b cs := by
  constructor
  · intro h
    cases h with
    | left h => exact .inl h
    | right h => exact .inr h
  · rintro (h | h)
    · exact .left h
    · exact .right h

@[simp] theorem spells_opt : Spells g (.opt a) cs ↔ cs = [] ∨ Spells g a cs := by
  constructor
  · intro h
    cases h with
    | absent => exact .inl rfl
    | present h => exact .inr h
  · rintro (rfl | h)
    · exact .absent
    · exact .present h

theorem spells_many_forall {P : Char → Prop} (ha : ∀ ds, Spells g a ds → ∀ c ∈ ds, P c)
    (h : Spells g (.many a) cs) : ∀ c ∈ cs, P c := by
  generalize hphrase : Phrase.many a = phrase at h
  induction h with
  | done => simp
  | more hround _ _ ih =>
    cases hphrase
    exact List.forall_mem_append.2 ⟨ha _ hround, ih rfl⟩
  | _ => cases hphrase

theorem spells_many_one (h : Spells g (.many (.one k)) cs) : ∀ c ∈ cs, k.holds c = true := by
  refine spells_many_forall (fun ds hds => ?_) h
  cases hds with
  | one hx => simpa using hx

theorem spells_many1_one (h : Spells g (Phrase.many1 (.one k)) cs) :
    cs ≠ [] ∧ ∀ c ∈ cs, k.holds c = true := by
  obtain ⟨ds, es, hds, hes, rfl⟩ := spells_seq.1 h
  cases hds with
  | one hx => exact ⟨by simp, by simpa using ⟨hx, spells_many_one hes⟩⟩

end

/-- How blanks are treated where a rule of that style is entered. -/
def outerSpacing (style : RuleStyle) (sp : Spacing) : Spacing :=
  (outerMode style { spacing := sp }).spacing

def innerSpacing (style : RuleStyle) (sp : Spacing) : Spacing :=
  (innerMode style { spacing := sp }).spacing

/-- The pieces a phrase may leave. -/
inductive Leaves (g : Grammar ρ) : Spacing → Phrase ρ → List (Piece ρ) → Prop where
  | text {sp : Spacing} {cs : List Char} : Leaves g sp (.text cs) []
  | caseless {sp : Spacing} {cs : List Char} : Leaves g sp (.caseless cs) []
  | one {sp : Spacing} {k : CharClass} : Leaves g sp (.one k) []
  | startOfInput {sp : Spacing} : Leaves g sp .startOfInput []
  | endOfInput {sp : Spacing} : Leaves g sp .endOfInput []
  | silent {sp : Spacing} {r : ρ} {ps : List (Piece ρ)} (hstyle : g.style r = .silent)
      (h : Leaves g sp (g.body r) ps) : Leaves g sp (.rule r) ps
  | kept {sp : Spacing} {p : Piece ρ} (hstyle : g.style p.rule ≠ .silent)
      (hkept : outerSpacing (g.style p.rule) sp ≠ .atomic)
      (h : Leaves g (innerSpacing (g.style p.rule) sp) (g.body p.rule) p.inner)
      (hspells : innerSpacing (g.style p.rule) sp ≠ .loose → Spells g (g.body p.rule) p.chars) :
      Leaves g sp (.rule p.rule) [p]
  | dropped {sp : Spacing} {r : ρ} {ps : List (Piece ρ)} (hstyle : g.style r ≠ .silent)
      (hkept : outerSpacing (g.style r) sp = .atomic)
      (h : Leaves g (innerSpacing (g.style r) sp) (g.body r) ps) : Leaves g sp (.rule r) ps
  | seq {sp : Spacing} {a b : Phrase ρ} {ps qs : List (Piece ρ)} (ha : Leaves g sp a ps)
      (hb : Leaves g sp b qs) : Leaves g sp (.seq a b) (ps ++ qs)
  | left {sp : Spacing} {a b : Phrase ρ} {ps : List (Piece ρ)} (h : Leaves g sp a ps) :
      Leaves g sp (.alt a b) ps
  | right {sp : Spacing} {a b : Phrase ρ} {ps : List (Piece ρ)} (h : Leaves g sp b ps) :
      Leaves g sp (.alt a b) ps
  | absent {sp : Spacing} {a : Phrase ρ} : Leaves g sp (.opt a) []
  | present {sp : Spacing} {a : Phrase ρ} {ps : List (Piece ρ)} (h : Leaves g sp a ps) :
      Leaves g sp (.opt a) ps
  | done {sp : Spacing} {a : Phrase ρ} : Leaves g sp (.many a) []
  | more {sp : Spacing} {a : Phrase ρ} {ps qs : List (Piece ρ)} (ha : Leaves g sp a ps)
      (hb : Leaves g sp (.many a) qs) : Leaves g sp (.many a) (ps ++ qs)
  | ahead {sp : Spacing} {a : Phrase ρ} : Leaves g sp (.ahead a) []
  | never {sp : Spacing} {a : Phrase ρ} : Leaves g sp (.never a) []

def BlankLeavesNothing (g : Grammar ρ) : Prop :=
  ∀ ps, Leaves g .atomic g.blank ps → ps = []

/-! ### Pieces by their phrases -/

/-- The piece of a rule, entered where blanks are treated as `sp` says. -/
structure Left (g : Grammar ρ) (sp : Spacing) (r : ρ) (p : Piece ρ) : Prop where
  rule : p.rule = r
  inner : Leaves g (innerSpacing (g.style r) sp) (g.body r) p.inner
  chars : innerSpacing (g.style r) sp ≠ .loose → Spells g (g.body r) p.chars

section

variable {sp : Spacing} {a b : Phrase ρ} {ps : List (Piece ρ)} {r : ρ}

@[simp] theorem leaves_text {cs : List Char} : Leaves g sp (.text cs) ps ↔ ps = [] :=
  ⟨fun h => by cases h; rfl, fun h => h ▸ .text⟩

@[simp] theorem leaves_seq :
    Leaves g sp (.seq a b) ps ↔ ∃ qs rs, Leaves g sp a qs ∧ Leaves g sp b rs ∧ ps = qs ++ rs := by
  constructor
  · intro h
    cases h with
    | seq ha hb => exact ⟨_, _, ha, hb, rfl⟩
  · rintro ⟨qs, rs, ha, hb, rfl⟩
    exact .seq ha hb

@[simp] theorem leaves_alt :
    Leaves g sp (.alt a b) ps ↔ Leaves g sp a ps ∨ Leaves g sp b ps := by
  constructor
  · intro h
    cases h with
    | left h => exact .inl h
    | right h => exact .inr h
  · rintro (h | h)
    · exact .left h
    · exact .right h

@[simp] theorem leaves_opt : Leaves g sp (.opt a) ps ↔ ps = [] ∨ Leaves g sp a ps := by
  constructor
  · intro h
    cases h with
    | absent => exact .inl rfl
    | present h => exact .inr h
  · rintro (rfl | h)
    · exact .absent
    · exact .present h

theorem leaves_many :
    Leaves g sp (.many a) ps ↔
      ∃ rounds : List (List (Piece ρ)), (∀ qs ∈ rounds, Leaves g sp a qs) ∧
        ps = rounds.flatten := by
  constructor
  · intro h
    generalize hphrase : Phrase.many a = phrase at h
    induction h with
    | done => exact ⟨[], by simp, rfl⟩
    | more ha hb _ ih =>
      cases hphrase
      obtain ⟨rounds, hrounds, rfl⟩ := ih rfl
      exact ⟨_ :: rounds, by simpa using ⟨ha, hrounds⟩, rfl⟩
    | _ => cases hphrase
  · rintro ⟨rounds, hrounds, rfl⟩
    induction rounds with
    | nil => exact .done
    | cons qs rounds ih =>
      rw [List.forall_mem_cons] at hrounds
      exact .more hrounds.1 (ih hrounds.2)

theorem leaves_silent (hstyle : g.style r = .silent) :
    Leaves g sp (.rule r) ps ↔ Leaves g sp (g.body r) ps := by
  constructor
  · intro h
    cases h with
    | silent _ h => exact h
    | kept h => exact absurd hstyle h
    | dropped h => exact absurd hstyle h
  · exact .silent hstyle

theorem leaves_kept (hstyle : g.style r ≠ .silent) (hkept : outerSpacing (g.style r) sp ≠ .atomic) :
    Leaves g sp (.rule r) ps ↔ ∃ p, ps = [p] ∧ Left g sp r p := by
  constructor
  · intro h
    cases h with
    | silent h => exact absurd h hstyle
    | kept _ _ h hspells => exact ⟨_, rfl, rfl, h, hspells⟩
    | dropped _ h => exact absurd h hkept
  · rintro ⟨p, rfl, rfl, h, hspells⟩
    exact .kept hstyle hkept h hspells

end

/-- A piece that may be left where blanks are treated as `sp` says, and so on inside it. -/
inductive Shaped (g : Grammar ρ) : Spacing → Piece ρ → Prop where
  | mk {sp : Spacing} {p : Piece ρ} (h : Left g sp p.rule p)
      (hinner : ∀ q ∈ p.inner, Shaped g (innerSpacing (g.style p.rule) sp) q) : Shaped g sp p

theorem Leaves.shaped {sp : Spacing} {a : Phrase ρ} {ps : List (Piece ρ)}
    (h : Leaves g sp a ps) : ∀ p ∈ ps, Shaped g sp p := by
  induction h with
  | silent _ _ ih => exact ih
  | kept _ _ h hspells ih =>
    intro q hq
    rw [List.mem_singleton.1 hq]
    exact ⟨⟨rfl, h, hspells⟩, ih⟩
  | @dropped sp r ps _ hdropped _ ih =>
    -- A token inside a token treats blanks alike.
    have hsame : innerSpacing (g.style r) sp = sp := by
      revert hdropped
      unfold outerSpacing outerMode innerSpacing innerMode
      cases g.style r <;> simp +contextual
    rw [hsame] at ih
    exact ih
  | seq _ _ iha ihb | more _ _ iha ihb =>
    intro q hq
    rcases List.mem_append.1 hq with hq | hq
    · exact iha q hq
    · exact ihb q hq
  | left _ ih | right _ ih | present _ ih => exact ih
  | _ => simp

/-- Pieces of the same rules, nested in the same way, that are pair by pair of one kin. -/
inductive Alike (kin : Piece ρ → Piece ρ → Prop) : Piece ρ → Piece ρ → Prop where
  | mk {p q : Piece ρ} (hrule : q.rule = p.rule) (hkin : kin p q)
      (hinner : List.Forall₂ (Alike kin) p.inner q.inner) : Alike kin p q

section

variable {kin : Piece ρ → Piece ρ → Prop} {p q : Piece ρ}

theorem Alike.rule (h : Alike kin p q) : q.rule = p.rule := by
  cases h with
  | mk hrule _ _ => exact hrule

theorem Alike.isKin (h : Alike kin p q) : kin p q := by
  cases h with
  | mk _ hkin _ => exact hkin

theorem Alike.inner (h : Alike kin p q) : List.Forall₂ (Alike kin) p.inner q.inner := by
  cases h with
  | mk _ _ hinner => exact hinner

theorem Alike.inner_mem (h : Alike kin p q) :
    List.Forall₂ (fun x y => x ∈ p.inner ∧ Alike kin x y) p.inner q.inner :=
  (List.forall₂_and_left _ _).2 ⟨fun _ hx => hx, h.inner⟩

theorem Shaped.alike {sp : Spacing} (h : Shaped g sp p) (hkin : ∀ p, kin p p) : Alike kin p p := by
  induction h with
  | mk _ _ ih => exact .mk rfl (hkin _) (List.forall₂_same.2 ih)

end

end Grammar

end PanelSchema
