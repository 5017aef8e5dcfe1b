import PanelSchema.Proofs.Grammar.Leaves

/-!
What a grammar says about a text. A phrase at a cursor has at most one answer: it is refused, or
it ends at another cursor and leaves pieces. The bound on nested phrases and the record of
attempts have no part in it.
-/

namespace PanelSchema.Grammar

variable {ρ : Type} {g : Grammar ρ}

/-- Where a match ends and which pieces it leaves, if there is one. -/
abbrev Answer (ρ : Type) := Option (Cursor × List (Piece ρ))

namespace Answer

def at? (c : Option Cursor) : Answer ρ :=
  c.map fun c => (c, [])

def behind (ps : List (Piece ρ)) (x : Answer ρ) : Answer ρ :=
  x.map fun y => (y.1, ps ++ y.2)

/-- The match of a rule that was entered at `c`. Inside tokens it leaves no piece of its own. -/
def closed (sp : Spacing) (r : ρ) (c : Cursor) (x : Answer ρ) : Answer ρ :=
  x.map fun y =>
    (y.1,
      if sp = .atomic then y.2
      else
        [{ rule := r
           start := c.position
           stop := y.1.position
           source := c.rest
           inner := y.2 }])

end Answer

open Answer

/-- The answer of a phrase at a cursor, where blanks are treated as the spacing says. -/
inductive Answers (g : Grammar ρ) : Spacing → Phrase ρ → Cursor → Answer ρ → Prop where
  | text {sp cs c} : Answers g sp (.text cs) c (at? (c.stepOver? (· == ·) cs))
  | caseless {sp cs c} :
      Answers g sp (.caseless cs) c (at? (c.stepOver? (fun x y => x.toLower == y.toLower) cs))
  | one {sp k c} : Answers g sp (.one k) c (at? (c.next? k))
  | startOfInput {sp c} :
      Answers g sp .startOfInput c (if c.position.offset = 0 then some (c, []) else none)
  | endOfInput {sp c} :
      Answers g sp .endOfInput c (if c.rest.isEmpty then some (c, []) else none)
  | silent {sp r c x} (hstyle : g.style r = .silent) (h : Answers g sp (g.body r) c x) :
      Answers g sp (.rule r) c x
  | rule {sp r c x} (hstyle : g.style r ≠ .silent)
      (h : Answers g (innerSpacing (g.style r) sp) (g.body r) c x) :
      Answers g sp (.rule r) c (x.closed (outerSpacing (g.style r) sp) r c)
  | seq_refused {sp a b c} (ha : Answers g sp a c none) : Answers g sp (.seq a b) c none
  | seq_tight {sp a b c d ps x} (hsp : sp ≠ .loose) (ha : Answers g sp a c (some (d, ps)))
      (hb : Answers g sp b d x) : Answers g sp (.seq a b) c (x.behind ps)
  | seq_loose {a b c d e ps bs x} (ha : Answers g .loose a c (some (d, ps)))
      (hblank : Answers g .atomic g.blank d (some (e, bs))) (hb : Answers g .loose b e x) :
      Answers g .loose (.seq a b) c (x.behind (ps ++ bs))
  | seq_blank {a b c d ps} (ha : Answers g .loose a c (some (d, ps)))
      (hblank : Answers g .atomic g.blank d none) : Answers g .loose (.seq a b) c none
  | left {sp a b c y} (h : Answers g sp a c (some y)) : Answers g sp (.alt a b) c (some y)
  | right {sp a b c x} (ha : Answers g sp a c none) (hb : Answers g sp b c x) :
      Answers g sp (.alt a b) c x
  | present {sp a c y} (h : Answers g sp a c (some y)) : Answers g sp (.opt a) c (some y)
  | absent {sp a c} (h : Answers g sp a c none) : Answers g sp (.opt a) c (some (c, []))
  | done {sp a c} (h : Answers g sp a c none) : Answers g sp (.many a) c (some (c, []))
  | more_tight {sp a c d e ps qs} (hsp : sp ≠ .loose) (ha : Answers g sp a c (some (d, ps)))
      (h : Answers g sp (.many a) d (some (e, qs))) :
      Answers g sp (.many a) c (some (e, ps ++ qs))
  | more_loose {a c d e e' ps bs y qs} (ha : Answers g .loose a c (some (d, ps)))
      (hblank : Answers g .atomic g.blank d (some (e, bs)))
      (hnext : Answers g .loose a e (some y)) (h : Answers g .loose (.many a) e (some (e', qs))) :
      Answers g .loose (.many a) c (some (e', ps ++ bs ++ qs))
  /-- Blanks that no further match follows are given back. -/
  | last {a c d e ps bs} (ha : Answers g .loose a c (some (d, ps)))
      (hblank : Answers g .atomic g.blank d (some (e, bs))) (hnext : Answers g .loose a e none) :
      Answers g .loose (.many a) c (some (d, ps))
  | last_blank {a c d ps} (ha : Answers g .loose a c (some (d, ps)))
      (hblank : Answers g .atomic g.blank d none) : Answers g .loose (.many a) c (some (d, ps))
  | ahead {sp a c x} (h : Answers g sp a c x) :
      Answers g sp (.ahead a) c (x.map fun _ => (c, []))
  | never {sp a c x} (h : Answers g sp a c x) :
      Answers g sp (.never a) c (if x.isSome then none else some (c, []))

theorem Answers.unique {sp : Spacing} {phrase : Phrase ρ} {c : Cursor} {x y : Answer ρ}
    (hx : Answers g sp phrase c x) (hy : Answers g sp phrase c y) : x = y := by
  induction hx generalizing y with
  | text | caseless | one | startOfInput | endOfInput =>
    cases hy
    rfl
  | silent hstyle _ ih =>
    cases hy with
    | silent _ h => exact ih h
    | rule hstyle' _ => exact absurd hstyle hstyle'
  | rule hstyle _ ih =>
    cases hy with
    | silent hstyle' _ => exact absurd hstyle' hstyle
    | rule _ h => rw [ih h]
  | seq_refused _ ih =>
    cases hy with
    | seq_refused => rfl
    | seq_tight _ ha _ | seq_loose ha _ _ | seq_blank ha _ => cases ih ha
  | seq_tight hsp _ _ iha ihb =>
    cases hy with
    | seq_refused ha => cases iha ha
    | seq_tight _ ha hb =>
      cases iha ha
      rw [ihb hb]
    | seq_loose => exact absurd rfl hsp
    | seq_blank => exact absurd rfl hsp
  | seq_loose _ _ _ iha ihblank ihb =>
    cases hy with
    | seq_refused ha => cases iha ha
    | seq_tight hsp => exact absurd rfl hsp
    | seq_loose ha hblank hb =>
      cases iha ha
      cases ihblank hblank
      rw [ihb hb]
    | seq_blank ha hblank =>
      cases iha ha
      cases ihblank hblank
  | seq_blank _ _ iha ihblank =>
    cases hy with
    | seq_refused ha => cases iha ha
    | seq_tight hsp => exact absurd rfl hsp
    | seq_loose ha hblank _ =>
      cases iha ha
      cases ihblank hblank
    | seq_blank => rfl
  | left _ ih =>
    cases hy with
    | left h => exact ih h
    | right ha _ => cases ih ha
  | right _ _ iha ihb =>
    cases hy with
    | left h => cases iha h
    | right _ hb => exact ihb hb
  | present _ ih =>
    cases hy with
    | present h => exact ih h
    | absent h => cases ih h
  | absent _ ih =>
    cases hy with
    | present h => cases ih h
    | absent => rfl
  | done _ ih =>
    cases hy with
    | done => rfl
    | more_tight _ ha _ | more_loose ha _ _ _ | last ha _ _ | last_blank ha _ => cases ih ha
  | more_tight hsp _ _ iha ih =>
    cases hy with
    | done ha => cases iha ha
    | more_tight _ ha h =>
      cases iha ha
      cases ih h
      rfl
    | more_loose | last | last_blank => exact absurd rfl hsp
  | more_loose _ _ _ _ iha ihblank ihnext ih =>
    cases hy with
    | done ha => cases iha ha
    | more_tight hsp => exact absurd rfl hsp
    | more_loose ha hblank _ h =>
      cases iha ha
      cases ihblank hblank
      cases ih h
      rfl
    | last ha hblank hnext =>
      cases iha ha
      cases ihblank hblank
      cases ihnext hnext
    | last_blank ha hblank =>
      cases iha ha
      cases ihblank hblank
  | last _ _ _ iha ihblank ihnext =>
    cases hy with
    | done ha => cases iha ha
    | more_tight hsp => exact absurd rfl hsp
    | more_loose ha hblank hnext _ =>
      cases iha ha
      cases ihblank hblank
      cases ihnext hnext
    | last ha _ _ => exact iha ha
    | last_blank ha hblank =>
      cases iha ha
      cases ihblank hblank
  | last_blank _ _ iha ihblank =>
    cases hy with
    | done ha => cases iha ha
    | more_tight hsp => exact absurd rfl hsp
    | more_loose ha hblank _ _ =>
      cases iha ha
      cases ihblank hblank
    | last ha hblank _ =>
      cases iha ha
      cases ihblank hblank
    | last_blank ha _ => exact iha ha
  | ahead _ ih =>
    cases hy with
    | ahead h => rw [ih h]
  | never _ ih =>
    cases hy with
    | never h => rw [ih h]

end PanelSchema.Grammar
