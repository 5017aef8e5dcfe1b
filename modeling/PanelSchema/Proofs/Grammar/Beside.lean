import PanelSchema.Proofs.Grammar.Parts

/-!
Two texts read side by side. If the cursors of two matches are related wherever a phrase is
asked, and the phrases that are not taken apart answer alike there, then so does every phrase: it
is refused in both texts, or it is taken in both and leaves pieces of the same rules, nested in
the same way.
-/

namespace PanelSchema

variable {ρ : Type}

/-- What a rule leaves that is matched between two cursors. -/
abbrev Cursor.piece (c d : Cursor) (r : ρ) (ps : List (Piece ρ)) : Piece ρ :=
  { rule := r, start := c.position, stop := d.position, source := c.rest, inner := ps }

def Phrase.isLeaf : Phrase ρ → Bool
  | .text _ | .caseless _ | .one _ | .startOfInput | .endOfInput => true
  | _ => false

/-- The phrase asks nowhere whether the text has only begun, and only for such rules. -/
def Phrase.isInner (ok : ρ → Bool) : Phrase ρ → Bool
  | .startOfInput => false
  | .rule r => ok r
  | .seq a b | .alt a b => a.isInner ok && b.isInner ok
  | .opt a | .many a | .ahead a | .never a => a.isInner ok
  | _ => true

namespace Grammar

variable {g : Grammar ρ}

section

variable {kin kin' : Piece ρ → Piece ρ → Prop} {p q : Piece ρ}

theorem Alike.of_inner {motive : Piece ρ → Piece ρ → Prop}
    (hstep : ∀ p q, q.rule = p.rule → kin p q → List.Forall₂ motive p.inner q.inner →
      motive p q) (h : Alike kin p q) : motive p q :=
  @Alike.rec ρ kin (fun p q _ => motive p q) (fun ps qs _ => List.Forall₂ motive ps qs)
    (fun hrule hkin _ ih => hstep _ _ hrule hkin ih) .nil (fun _ _ ih ihs => .cons ih ihs) p q h

theorem Alike.mono (hmono : ∀ p q, kin p q → kin' p q) (h : Alike kin p q) : Alike kin' p q :=
  h.of_inner fun _ _ hrule hkin ih => .mk hrule (hmono _ _ hkin) ih

end

/-- Two answers that are refused together, or end at related cursors with pieces that are alike. -/
inductive Follows (ends : Cursor → Cursor → Prop) (kin : Piece ρ → Piece ρ → Prop) :
    Answer ρ → Answer ρ → Prop where
  | refused : Follows ends kin none none
  | took {d d' : Cursor} {ps ps' : List (Piece ρ)} (hends : ends d d')
      (halike : List.Forall₂ (Alike kin) ps ps') : Follows ends kin (some (d, ps)) (some (d', ps'))

/-- What the phrase answers at one cursor it answers at the other. -/
def Carries (g : Grammar ρ) (ends : Cursor → Cursor → Prop) (kin : Piece ρ → Piece ρ → Prop)
    (sp : Spacing) (phrase : Phrase ρ) (c c' : Cursor) : Prop :=
  ∀ x, Answers g sp phrase c x → ∃ x', Answers g sp phrase c' x' ∧ Follows ends kin x x'

section

variable {ends ends' : Cursor → Cursor → Prop} {kin kin' : Piece ρ → Piece ρ → Prop}
  {sp : Spacing} {phrase : Phrase ρ} {c c' d d' : Cursor} {x x' : Answer ρ}
  {ps ps' : List (Piece ρ)}

theorem Follows.eq_none (h : Follows ends kin none x') : x' = none := by
  cases h
  rfl

theorem Follows.exists_some (h : Follows ends kin (some (d, ps)) x') :
    ∃ d' ps', x' = some (d', ps') ∧ ends d d' ∧ List.Forall₂ (Alike kin) ps ps' := by
  cases h with
  | took hends halike => exact ⟨_, _, rfl, hends, halike⟩

theorem Follows.behind (h : Follows ends kin x x') (hps : List.Forall₂ (Alike kin) ps ps') :
    Follows ends kin (x.behind ps) (x'.behind ps') := by
  cases h with
  | refused => exact .refused
  | took hends halike => exact .took hends (List.rel_append hps halike)

theorem Follows.mono (hends : ∀ d d', ends d d' → ends' d d')
    (hkin : ∀ p q, kin p q → kin' p q) (h : Follows ends kin x x') : Follows ends' kin' x x' := by
  cases h with
  | refused => exact .refused
  | took h halike => exact .took (hends _ _ h) (halike.imp fun _ _ => Alike.mono hkin)

theorem Carries.mono (h : Carries g ends kin sp phrase c c')
    (hends : ∀ d d', ends d d' → ends' d d') (hkin : ∀ p q, kin p q → kin' p q) :
    Carries g ends' kin' sp phrase c c' := by
  intro x hx
  obtain ⟨x', hx', hfollows⟩ := h x hx
  exact ⟨x', hx', hfollows.mono hends hkin⟩

theorem Carries.refused (h : Carries g ends kin sp phrase c c')
    (hx : Answers g sp phrase c none) : Answers g sp phrase c' none := by
  obtain ⟨x', hx', hfollows⟩ := h none hx
  rwa [hfollows.eq_none] at hx'

theorem Carries.took (h : Carries g ends kin sp phrase c c')
    (hx : Answers g sp phrase c (some (d, ps))) :
    ∃ d' ps', Answers g sp phrase c' (some (d', ps')) ∧ ends d d' ∧
      List.Forall₂ (Alike kin) ps ps' := by
  obtain ⟨x', hx', hfollows⟩ := h _ hx
  obtain ⟨d', ps', rfl, hends, halike⟩ := hfollows.exists_some
  exact ⟨d', ps', hx', hends, halike⟩

theorem Carries.seq {a b : Phrase ρ} (hsp : sp ≠ .loose) (ha : Carries g ends kin sp a c c')
    (hb : ∀ d d', ends d d' → Carries g ends' kin sp b d d') :
    Carries g ends' kin sp (.seq a b) c c' := by
  intro x hx
  cases hx with
  | seq_refused h => exact ⟨none, .seq_refused (ha.refused h), .refused⟩
  | seq_tight _ h hx =>
    obtain ⟨d', ps', h', hends, halike⟩ := ha.took h
    obtain ⟨x', hx', hfollows⟩ := hb _ d' hends _ hx
    exact ⟨_, .seq_tight hsp h' hx', hfollows.behind halike⟩
  | seq_loose | seq_blank => exact absurd rfl hsp

theorem carries_of_refuses (h : Refuses g sp phrase c.rest) (h' : Refuses g sp phrase c'.rest) :
    Carries g ends kin sp phrase c c' := by
  intro x hx
  rw [hx.unique (h c rfl)]
  exact ⟨none, h' c' rfl, .refused⟩

end

/-- The pieces of a rule whose body is taken at these cursors are of one kin. -/
def Seals (g : Grammar ρ) (ends : Cursor → Cursor → Prop) (kin : Piece ρ → Piece ρ → Prop)
    (sp : Spacing) (r : ρ) (c c' : Cursor) : Prop :=
  ∀ d d' ps ps', ends d d' → Answers g sp (g.body r) c (some (d, ps)) →
    Answers g sp (g.body r) c' (some (d', ps')) → List.Forall₂ (Alike kin) ps ps' →
    kin (c.piece d r ps) (c'.piece d' r ps')

theorem Seals.closed {ends : Cursor → Cursor → Prop} {kin : Piece ρ → Piece ρ → Prop} {r : ρ}
    {c c' : Cursor} {sp sp' : Spacing} (hseals : Seals g ends kin sp' r c c') {x x' : Answer ρ}
    (hx : Answers g sp' (g.body r) c x) (hx' : Answers g sp' (g.body r) c' x')
    (h : Follows ends kin x x') : Follows ends kin (x.closed sp r c) (x'.closed sp r c') := by
  cases h with
  | refused => exact .refused
  | took hends halike =>
    refine .took hends ?_
    split
    · exact halike
    · exact .cons (.mk rfl (hseals _ _ _ _ hends hx hx' halike) halike) .nil

/-- A phrase that is taken at `c` ends before `d`, with blanks between them outside tokens. -/
inductive Reaches (g : Grammar ρ) : Spacing → Phrase ρ → Cursor → Cursor → Prop where
  | tight {sp : Spacing} {a : Phrase ρ} {c d : Cursor} {ps : List (Piece ρ)} (hsp : sp ≠ .loose)
      (h : Answers g sp a c (some (d, ps))) : Reaches g sp a c d
  | loose {a : Phrase ρ} {c d e : Cursor} {ps bs : List (Piece ρ)}
      (h : Answers g .loose a c (some (e, ps)))
      (hblank : Answers g .atomic g.blank e (some (d, bs))) : Reaches g .loose a c d

/-- What is asked where a rule is matched against a text. A phrase that is asked asks its parts, as
far as its answer needs them, and outside tokens the blanks between them. -/
inductive Asks (g : Grammar ρ) (root : ρ) (text : List Char) :
    Spacing → Phrase ρ → Cursor → Prop where
  | root : Asks g root text .loose (.rule root) { rest := text }
  | body {sp : Spacing} {r : ρ} {c : Cursor} (h : Asks g root text sp (.rule r) c) :
      Asks g root text (innerSpacing (g.style r) sp) (g.body r) c
  | first {sp : Spacing} {a b : Phrase ρ} {c : Cursor} (h : Asks g root text sp (.seq a b) c) :
      Asks g root text sp a c
  | second {sp : Spacing} {a b : Phrase ρ} {c d : Cursor} (h : Asks g root text sp (.seq a b) c)
      (hreaches : Reaches g sp a c d) : Asks g root text sp b d
  | left {sp : Spacing} {a b : Phrase ρ} {c : Cursor} (h : Asks g root text sp (.alt a b) c) :
      Asks g root text sp a c
  | right {sp : Spacing} {a b : Phrase ρ} {c : Cursor} (h : Asks g root text sp (.alt a b) c)
      (ha : Answers g sp a c none) : Asks g root text sp b c
  | opt {sp : Spacing} {a : Phrase ρ} {c : Cursor} (h : Asks g root text sp (.opt a) c) :
      Asks g root text sp a c
  | ahead {sp : Spacing} {a : Phrase ρ} {c : Cursor} (h : Asks g root text sp (.ahead a) c) :
      Asks g root text sp a c
  | never {sp : Spacing} {a : Phrase ρ} {c : Cursor} (h : Asks g root text sp (.never a) c) :
      Asks g root text sp a c
  | round {sp : Spacing} {a : Phrase ρ} {c : Cursor} (h : Asks g root text sp (.many a) c) :
      Asks g root text sp a c
  | again {sp : Spacing} {a : Phrase ρ} {c d : Cursor} (h : Asks g root text sp (.many a) c)
      (hreaches : Reaches g sp a c d) : Asks g root text sp (.many a) d
  | between {a b : Phrase ρ} {c d : Cursor} {ps : List (Piece ρ)}
      (h : Asks g root text .loose (.seq a b) c) (ha : Answers g .loose a c (some (d, ps))) :
      Asks g root text .atomic g.blank d
  | behind {a : Phrase ρ} {c d : Cursor} {ps : List (Piece ρ)}
      (h : Asks g root text .loose (.many a) c) (ha : Answers g .loose a c (some (d, ps))) :
      Asks g root text .atomic g.blank d

/-! ### Checking what is asked -/

/-- The answer of a phrase, as far as the bound lets it be known. -/
def answer? (g : Grammar ρ) (fuel : Nat) (sp : Spacing) (a : Phrase ρ) (c : Cursor) :
    Option (Answer ρ) :=
  match g.run fuel { spacing := sp } a { cursor := c } with
  | .matched t => some (some (t.cursor, t.pieces.reverse))
  | .failed _ => some none
  | .exhausted => none

theorem Answers.of_answer {fuel : Nat} {sp : Spacing} {a : Phrase ρ} {c : Cursor} {x : Answer ρ}
    (h : Answers g sp a c x) {test : Answer ρ → Bool}
    (hknown : (g.answer? fuel sp a c).any test = true) : test x = true := by
  have hgives := gives_run (g := g) fuel { spacing := sp } a { cursor := c }
  unfold answer? at hknown
  generalize run g _ _ a _ = reply at hgives hknown
  cases reply with
  | exhausted => cases hknown
  | failed => exact Answers.unique hgives h ▸ hknown
  | matched t =>
    obtain ⟨ps, hps, hpieces⟩ := hgives
    have heq : t.pieces.reverse = ps := by simp [hpieces rfl]
    rw [hps.unique h |>.symm, ← heq]
    exact hknown

/-- What is asked behind a phrase and the blanks after it passes the test. -/
def passesNext (g : Grammar ρ) (fuel : Nat) (a : Phrase ρ) (c : Cursor) (test : Cursor → Bool) :
    Bool :=
  (g.answer? fuel .loose a c).any (·.all fun x =>
    (g.answer? fuel .atomic g.blank x.1).any (·.all fun y => test y.1))

/-- All that a phrase asks outside tokens passes the test. -/
def passes (g : Grammar ρ) (test : Phrase ρ → Cursor → Bool) : Nat → Phrase ρ → Cursor → Bool
  | 0, _, _ => false
  | fuel + 1, phrase, c =>
    test phrase c && match phrase with
      | .rule r => innerSpacing (g.style r) .loose != .loose || passes g test fuel (g.body r) c
      | .seq a b => passes g test fuel a c && g.passesNext fuel a c (passes g test fuel b)
      | .alt a b => passes g test fuel a c &&
        (g.answer? fuel .loose a c).any fun x => x.isSome || passes g test fuel b c
      | .opt a | .ahead a | .never a => passes g test fuel a c
      | .many a => passes g test fuel a c && g.passesNext fuel a c (passes g test fuel (.many a))
      | _ => true

theorem Reaches.passes {fuel : Nat} {a : Phrase ρ} {c d : Cursor} {test : Cursor → Bool}
    (h : Reaches g .loose a c d) (hpasses : g.passesNext fuel a c test = true) : test d = true := by
  cases h with
  | tight hsp => exact absurd rfl hsp
  | loose ha hblank => exact hblank.of_answer (ha.of_answer hpasses)

section

variable {root : ρ} {text : List Char} {test : Phrase ρ → Cursor → Bool} {n : Nat} {a : Phrase ρ}
  {c : Cursor}

theorem succ_of_passes (h : ∃ m, g.passes test m a c = true) :
    ∃ m, g.passes test (m + 1) a c = true := by
  obtain ⟨_ | m, hm⟩ := h
  · cases hm
  · exact ⟨m, hm⟩

theorem Asks.passes (hroot : g.passes test n (.rule root) { rest := text } = true) {sp : Spacing}
    (h : Asks g root text sp a c) (hsp : sp = .loose) : ∃ m, g.passes test m a c = true := by
  induction h with
  | root => exact ⟨n, hroot⟩
  | @body sp r c _ ih =>
    -- inside a token no phrase is asked outside tokens
    have hloose : sp = .loose := by
      revert hsp
      cases g.style r <;> cases sp <;> decide
    subst hloose
    obtain ⟨m, hm⟩ := succ_of_passes (ih rfl)
    simp only [Grammar.passes, hsp, bne_self_eq_false, Bool.false_or, Bool.and_eq_true] at hm
    exact ⟨m, hm.2⟩
  | first _ ih | left _ ih | round _ ih =>
    obtain ⟨m, hm⟩ := succ_of_passes (ih hsp)
    simp only [Grammar.passes, Bool.and_eq_true] at hm
    exact ⟨m, hm.2.1⟩
  | opt _ ih | ahead _ ih | never _ ih =>
    obtain ⟨m, hm⟩ := succ_of_passes (ih hsp)
    simp only [Grammar.passes, Bool.and_eq_true] at hm
    exact ⟨m, hm.2⟩
  | second _ hreaches ih | again _ hreaches ih =>
    subst hsp
    obtain ⟨m, hm⟩ := succ_of_passes (ih rfl)
    simp only [Grammar.passes, Bool.and_eq_true] at hm
    exact ⟨m, hreaches.passes hm.2.2⟩
  | right _ ha ih =>
    subst hsp
    obtain ⟨m, hm⟩ := succ_of_passes (ih rfl)
    simp only [Grammar.passes, Bool.and_eq_true] at hm
    exact ⟨m, ha.of_answer hm.2.2⟩
  | between | behind => cases hsp

/-- What is asked outside tokens passes the test if the check says so. -/
theorem Asks.tested (hroot : g.passes test n (.rule root) { rest := text } = true)
    (h : Asks g root text .loose a c) : test a c = true := by
  obtain ⟨m, hm⟩ := succ_of_passes (h.passes hroot rfl)
  exact (Bool.and_eq_true_iff.1 hm).1

end

/-- How the cursors of two matches are related: at the ends of what they take, and before what is
asked behind blanks. Pieces that are left are of one kin, or they are lost: then it is known what
the phrase answers in the second text. -/
structure Pairing (ρ : Type) where
  met : Cursor → Cursor → Prop
  faced : Cursor → Cursor → Prop
  kin : Piece ρ → Piece ρ → Prop
  lost : Phrase ρ → List (Piece ρ) → Answer ρ → Prop

namespace Pairing

variable (t : Pairing ρ)

/-- How the cursors are related where a phrase comes next. -/
def next (sp : Spacing) (c c' : Cursor) : Prop :=
  if sp = .loose then t.faced c c' else t.met c c'

def Answered (a : Phrase ρ) (x x' : Answer ρ) : Prop :=
  Follows t.met t.kin x x' ∨ ∃ d ps, x = some (d, ps) ∧ t.lost a ps x'

section

variable (g : Grammar ρ) (asked : Spacing → Phrase ρ → Cursor → Cursor → Prop)

/-- What the phrase answers at one cursor it answers at the other, or it is lost there. -/
def Settled (sp : Spacing) (a : Phrase ρ) (c c' : Cursor) : Prop :=
  ∀ x, Answers g sp a c x → ∃ x', Answers g sp a c' x' ∧ t.Answered a x x'

/-- If its first part is lost, the phrase is settled nonetheless. -/
def Saved (sp : Spacing) (a : Phrase ρ) (sp' : Spacing) (phrase : Phrase ρ) (c c' : Cursor) :
    Prop :=
  ∀ d ps x', Answers g sp a c (some (d, ps)) → Answers g sp a c' x' → t.lost a ps x' →
    t.Settled g sp' phrase c c'

/-- The phrase is asked at these cursors, or carries over as it is. -/
def Due (sp : Spacing) (a : Phrase ρ) (c c' : Cursor) : Prop :=
  asked sp a c c' ∨ Carries g t.met t.kin sp a c c'

/-- All that the phrase asks is due at related cursors. Whether there is a further round may be
told apart from what it takes. -/
def Divides (sp : Spacing) (phrase : Phrase ρ) (c c' : Cursor) : Prop :=
  match phrase with
  | .rule r => t.Due g asked (innerSpacing (g.style r) sp) (g.body r) c c' ∧
    (g.style r ≠ .silent → Seals g t.met t.kin (innerSpacing (g.style r) sp) r c c') ∧
    t.Saved g (innerSpacing (g.style r) sp) (g.body r) sp phrase c c'
  | .seq a b => t.Due g asked sp a c c' ∧
    (∀ d d', t.next sp d d' → Reaches g sp a c d → t.Due g asked sp b d d') ∧
    t.Saved g sp a sp phrase c c'
  | .alt a b => t.Due g asked sp a c c' ∧ (Answers g sp a c none → t.Due g asked sp b c c') ∧
    t.Saved g sp a sp phrase c c'
  | .opt a | .ahead a | .never a => t.Due g asked sp a c c' ∧ t.Saved g sp a sp phrase c c'
  | .many a => t.Due g asked sp a c c' ∧ (∀ d d', t.next sp d d' → Reaches g sp a c d →
    (t.Due g asked sp a d d' ∨ Carries g (fun _ _ => True) (fun _ _ => True) sp a d d') ∧
      t.Due g asked sp (.many a) d d') ∧ t.Saved g sp a sp phrase c c'
  | _ => False

/-- Where the phrase divides, what it answers is settled. -/
def Told (sp : Spacing) (a : Phrase ρ) (c : Cursor) (x : Answer ρ) : Prop :=
  ∀ c', asked sp a c c' → t.Divides g asked sp a c c' →
    ∃ x', Answers g sp a c' x' ∧ t.Answered a x x'

/-- What is asked at related cursors is settled or divides, and what is lost behind something
else is lost with it. -/
structure Closed : Prop where
  met : ∀ {sp a c c'}, asked sp a c c' → t.met c c'
  blank : ∀ {a c c' d d' ps}, (∃ b, asked .loose (.seq a b) c c') ∨ asked .loose (.many a) c c' →
    Answers g .loose a c (some (d, ps)) → t.met d d' → Carries g t.faced t.kin .atomic g.blank d d'
  parts : ∀ {sp a c c'}, asked sp a c c' → t.Settled g sp a c c' ∨ t.Divides g asked sp a c c'
  lost_second : ∀ {sp a b c c' ps qs qs' x'}, asked sp (.seq a b) c c' → t.lost b ps x' →
    t.lost (.seq a b) (qs ++ ps) (x'.behind qs')
  lost_right : ∀ {sp a b c c' ps x'}, asked sp (.alt a b) c c' → t.lost b ps x' →
    t.lost (.alt a b) ps x'
  lost_round : ∀ {sp a c c' ps x'}, asked sp (.many a) c c' → t.lost a ps x' → x' ≠ none
  lost_later : ∀ {sp a c c' ps qs qs' x'}, asked sp (.many a) c c' → t.lost (.many a) ps x' →
    t.lost (.many a) (qs ++ ps) (x'.behind qs')

end

variable {t} {sp sp' : Spacing} {a phrase : Phrase ρ} {c c' : Cursor} {x' : Answer ρ}

theorem settled_of_carries (h : Carries g t.met t.kin sp a c c') : t.Settled g sp a c c' := by
  intro x hx
  obtain ⟨x', hx', hfollows⟩ := h x hx
  exact ⟨x', hx', .inl hfollows⟩

theorem Answered.eq_none (h : t.Answered a none x') : x' = none := by
  rcases h with h | ⟨d, ps, hnone, -⟩
  · exact h.eq_none
  · cases hnone

theorem Answered.of_some {d : Cursor} {ps : List (Piece ρ)} (h : t.Answered a (some (d, ps)) x') :
    (∃ d' ps', x' = some (d', ps') ∧ t.met d d' ∧ List.Forall₂ (Alike t.kin) ps ps') ∨
      t.lost a ps x' := by
  rcases h with h | ⟨_, _, heq, hlost⟩
  · exact .inl h.exists_some
  · cases heq
    exact .inr hlost

end Pairing

open Pairing

theorem Answers.exists_many {sp : Spacing} {a : Phrase ρ} {c : Cursor} {x : Answer ρ}
    (h : Answers g sp (.many a) c x) : ∃ d ps, x = some (d, ps) := by
  cases h <;> exact ⟨_, _, rfl⟩

variable {t : Pairing ρ} {asked : Spacing → Phrase ρ → Cursor → Cursor → Prop}

namespace Pairing.Closed

variable (hclosed : t.Closed g asked) {sp : Spacing} {a : Phrase ρ} {c c' d : Cursor}
  {ps : List (Piece ρ)} {x : Answer ρ}

include hclosed

theorem due (hx : Answers g sp a c x) (htold : t.Told g asked sp a c x)
    (h : t.Due g asked sp a c c') : ∃ x', Answers g sp a c' x' ∧ t.Answered a x x' := by
  rcases h with hasked | hcarries
  · rcases hclosed.parts hasked with hsettled | hdivides
    · exact hsettled _ hx
    · exact htold c' hasked hdivides
  · exact settled_of_carries hcarries _ hx

theorem refused (hx : Answers g sp a c none) (htold : t.Told g asked sp a c none)
    (h : t.Due g asked sp a c c') : Answers g sp a c' none := by
  obtain ⟨x', hx', hanswered⟩ := hclosed.due hx htold h
  rwa [hanswered.eq_none] at hx'

theorem took (hx : Answers g sp a c (some (d, ps))) (htold : t.Told g asked sp a c (some (d, ps)))
    (h : t.Due g asked sp a c c') :
    (∃ d' ps', Answers g sp a c' (some (d', ps')) ∧ t.met d d' ∧
      List.Forall₂ (Alike t.kin) ps ps') ∨ ∃ x', Answers g sp a c' x' ∧ t.lost a ps x' := by
  obtain ⟨x', hx', hanswered⟩ := hclosed.due hx htold h
  rcases hanswered.of_some with ⟨d', ps', rfl, hmet, halike⟩ | hlost
  · exact .inl ⟨d', ps', hx', hmet, halike⟩
  · exact .inr ⟨x', hx', hlost⟩

theorem told (h : Answers g sp a c x) : t.Told g asked sp a c x := by
  unfold Told
  induction h with
  | text | caseless | one | startOfInput | endOfInput => exact fun _ _ hdivides => hdivides.elim
  | silent hstyle h ih =>
    rintro c' _ ⟨hbody, -, hsaved⟩
    rw [hstyle] at hbody hsaved
    obtain ⟨x', hx', hfollows | ⟨d, ps, rfl, hlost⟩⟩ := hclosed.due h ih hbody
    · exact ⟨x', .silent hstyle hx', .inl hfollows⟩
    · exact hsaved d ps x' h hx' hlost _ (.silent hstyle h)
  | rule hstyle h ih =>
    rintro c' _ ⟨hbody, hseals, hsaved⟩
    obtain ⟨x', hx', hfollows | ⟨d, ps, rfl, hlost⟩⟩ := hclosed.due h ih hbody
    · exact ⟨_, .rule hstyle hx', .inl ((hseals hstyle).closed h hx' hfollows)⟩
    · exact hsaved d ps x' h hx' hlost _ (.rule hstyle h)
  | seq_refused ha iha =>
    rintro c' _ ⟨hfirst, -, -⟩
    exact ⟨none, .seq_refused (hclosed.refused ha iha hfirst), .inl .refused⟩
  | seq_tight hsp ha hb iha ihb =>
    rintro c' hasked ⟨hfirst, hsecond, hsaved⟩
    rcases hclosed.took ha iha hfirst with ⟨d', ps', ha', hmet, halike⟩ | ⟨x', hx', hlost⟩
    · obtain ⟨x', hb', hanswered⟩ := hclosed.due hb ihb
        (hsecond _ _ (by rwa [Pairing.next, if_neg hsp]) (.tight hsp ha))
      refine ⟨_, .seq_tight hsp ha' hb', ?_⟩
      rcases hanswered with hfollows | ⟨e, qs, rfl, hlost⟩
      · exact .inl (hfollows.behind halike)
      · exact .inr ⟨e, _, rfl, hclosed.lost_second hasked hlost⟩
    · exact hsaved _ _ x' ha hx' hlost _ (.seq_tight hsp ha hb)
  | seq_loose ha hblank hb iha _ ihb =>
    rintro c' hasked ⟨hfirst, hsecond, hsaved⟩
    rcases hclosed.took ha iha hfirst with ⟨d', ps', ha', hmet, halike⟩ | ⟨x', hx', hlost⟩
    · obtain ⟨e', bs', hblank', hfaced, hbs⟩ :=
        (hclosed.blank (.inl ⟨_, hasked⟩) ha hmet).took hblank
      obtain ⟨x', hb', hanswered⟩ := hclosed.due hb ihb (hsecond _ _ hfaced (.loose ha hblank))
      refine ⟨_, .seq_loose ha' hblank' hb', ?_⟩
      rcases hanswered with hfollows | ⟨e, qs, rfl, hlost⟩
      · exact .inl (hfollows.behind (List.rel_append halike hbs))
      · exact .inr ⟨e, _, rfl, hclosed.lost_second hasked hlost⟩
    · exact hsaved _ _ x' ha hx' hlost _ (.seq_loose ha hblank hb)
  | seq_blank ha hblank iha _ =>
    rintro c' hasked ⟨hfirst, -, hsaved⟩
    rcases hclosed.took ha iha hfirst with ⟨d', ps', ha', hmet, -⟩ | ⟨x', hx', hlost⟩
    · have hblank' := (hclosed.blank (.inl ⟨_, hasked⟩) ha hmet).refused hblank
      exact ⟨none, .seq_blank ha' hblank', .inl .refused⟩
    · exact hsaved _ _ x' ha hx' hlost _ (.seq_blank ha hblank)
  | left h ih =>
    rintro c' _ ⟨hfirst, -, hsaved⟩
    rcases hclosed.took h ih hfirst with ⟨d', ps', h', hmet, halike⟩ | ⟨x', hx', hlost⟩
    · exact ⟨_, .left h', .inl (.took hmet halike)⟩
    · exact hsaved _ _ x' h hx' hlost _ (.left h)
  | right ha hb iha ihb =>
    rintro c' hasked ⟨hfirst, hsecond, -⟩
    have ha' := hclosed.refused ha iha hfirst
    obtain ⟨x', hb', hfollows | ⟨d, ps, rfl, hlost⟩⟩ := hclosed.due hb ihb (hsecond ha)
    · exact ⟨x', .right ha' hb', .inl hfollows⟩
    · exact ⟨x', .right ha' hb', .inr ⟨d, ps, rfl, hclosed.lost_right hasked hlost⟩⟩
  | present h ih =>
    rintro c' _ ⟨hfirst, hsaved⟩
    rcases hclosed.took h ih hfirst with ⟨d', ps', h', hmet, halike⟩ | ⟨x', hx', hlost⟩
    · exact ⟨_, .present h', .inl (.took hmet halike)⟩
    · exact hsaved _ _ x' h hx' hlost _ (.present h)
  | absent h ih =>
    rintro c' hasked ⟨hfirst, -⟩
    exact ⟨_, .absent (hclosed.refused h ih hfirst), .inl (.took (hclosed.met hasked) .nil)⟩
  | done h ih =>
    rintro c' hasked ⟨hfirst, -, -⟩
    exact ⟨_, .done (hclosed.refused h ih hfirst), .inl (.took (hclosed.met hasked) .nil)⟩
  | more_tight hsp ha h iha ih =>
    rintro c' hasked ⟨hfirst, hnext, hsaved⟩
    rcases hclosed.took ha iha hfirst with ⟨d', ps', ha', hmet, halike⟩ | ⟨x', hx', hlost⟩
    · have hmany := (hnext _ _ (by rwa [Pairing.next, if_neg hsp]) (.tight hsp ha)).2
      rcases hclosed.took h ih hmany with ⟨e', qs', h', hmet', halike'⟩ | ⟨x', hx', hlost⟩
      · exact ⟨_, .more_tight hsp ha' h', .inl (.took hmet' (List.rel_append halike halike'))⟩
      · obtain ⟨e', qs', rfl⟩ := hx'.exists_many
        exact ⟨_, .more_tight hsp ha' hx', .inr ⟨_, _, rfl, hclosed.lost_later hasked hlost⟩⟩
    · exact hsaved _ _ x' ha hx' hlost _ (.more_tight hsp ha h)
  | @more_loose a _ _ _ _ _ _ _ _ ha hblank hagain h iha _ ihagain ih =>
    rintro c' hasked ⟨hfirst, hnext, hsaved⟩
    rcases hclosed.took ha iha hfirst with ⟨d', ps', ha', hmet, halike⟩ | ⟨x', hx', hlost⟩
    · obtain ⟨e', bs', hblank', hfaced, hbs⟩ := (hclosed.blank (.inr hasked) ha hmet).took hblank
      obtain ⟨hround, hmany⟩ := hnext _ _ hfaced (.loose ha hblank)
      have hagain' : ∃ y', Answers g .loose a e' (some y') := by
        rcases hround with hround | hcarries
        · rcases hclosed.took hagain ihagain hround with ⟨_, _, hagain', -⟩ | ⟨x', hx', hlost⟩
          · exact ⟨_, hagain'⟩
          · obtain ⟨y', rfl⟩ := Option.ne_none_iff_exists'.1 (hclosed.lost_round hasked hlost)
            exact ⟨y', hx'⟩
        · obtain ⟨_, _, hagain', -⟩ := hcarries.took hagain
          exact ⟨_, hagain'⟩
      obtain ⟨y', hagain'⟩ := hagain'
      rcases hclosed.took h ih hmany with ⟨f', qs', h', hmet', halike'⟩ | ⟨x', hx', hlost⟩
      · exact ⟨_, .more_loose ha' hblank' hagain' h',
          .inl (.took hmet' (List.rel_append (List.rel_append halike hbs) halike'))⟩
      · obtain ⟨f', qs', rfl⟩ := hx'.exists_many
        exact ⟨_, .more_loose ha' hblank' hagain' hx',
          .inr ⟨_, _, rfl, hclosed.lost_later hasked hlost⟩⟩
    · exact hsaved _ _ x' ha hx' hlost _ (.more_loose ha hblank hagain h)
  | last ha hblank hagain iha _ ihagain =>
    rintro c' hasked ⟨hfirst, hnext, hsaved⟩
    rcases hclosed.took ha iha hfirst with ⟨d', ps', ha', hmet, halike⟩ | ⟨x', hx', hlost⟩
    · obtain ⟨e', bs', hblank', hfaced, -⟩ := (hclosed.blank (.inr hasked) ha hmet).took hblank
      obtain ⟨hround, -⟩ := hnext _ _ hfaced (.loose ha hblank)
      have hagain' := hround.elim (hclosed.refused hagain ihagain) (·.refused hagain)
      exact ⟨_, .last ha' hblank' hagain', .inl (.took hmet halike)⟩
    · exact hsaved _ _ x' ha hx' hlost _ (.last ha hblank hagain)
  | last_blank ha hblank iha _ =>
    rintro c' hasked ⟨hfirst, -, hsaved⟩
    rcases hclosed.took ha iha hfirst with ⟨d', ps', ha', hmet, halike⟩ | ⟨x', hx', hlost⟩
    · have hblank' := (hclosed.blank (.inr hasked) ha hmet).refused hblank
      exact ⟨_, .last_blank ha' hblank', .inl (.took hmet halike)⟩
    · exact hsaved _ _ x' ha hx' hlost _ (.last_blank ha hblank)
  | ahead h ih =>
    rintro c' hasked ⟨hfirst, hsaved⟩
    obtain ⟨x', hx', hfollows | ⟨d, ps, rfl, hlost⟩⟩ := hclosed.due h ih hfirst
    · refine ⟨_, .ahead hx', .inl ?_⟩
      cases hfollows with
      | refused => exact .refused
      | took => exact .took (hclosed.met hasked) .nil
    · exact hsaved d ps x' h hx' hlost _ (.ahead h)
  | never h ih =>
    rintro c' hasked ⟨hfirst, hsaved⟩
    obtain ⟨x', hx', hfollows | ⟨d, ps, rfl, hlost⟩⟩ := hclosed.due h ih hfirst
    · refine ⟨_, .never hx', .inl ?_⟩
      cases hfollows with
      | refused => exact .took (hclosed.met hasked) .nil
      | took => exact .refused
    · exact hsaved d ps x' h hx' hlost _ (.never h)

/-- What is asked at related cursors is settled. -/
theorem settles (hasked : asked sp a c c') : t.Settled g sp a c c' := fun _ hx =>
  hclosed.due hx (hclosed.told hx) (.inl hasked)

theorem carries (hlost : ∀ a ps x, ¬t.lost a ps x) (hasked : asked sp a c c') :
    Carries g t.met t.kin sp a c c' := by
  intro x hx
  obtain ⟨x', hx', hfollows | ⟨d, ps, -, h⟩⟩ := hclosed.settles hasked x hx
  · exact ⟨x', hx', hfollows⟩
  · exact absurd h (hlost _ _ _)

end Pairing.Closed

/-! ### One text at two places -/

def SameRest (c c' : Cursor) : Prop :=
  c'.rest = c.rest

def SameChars (p q : Piece ρ) : Prop :=
  q.chars = p.chars

section

variable {c c' : Cursor} {sp : Spacing}

theorem follows_stepOver (same : Char → Char → Bool) (cs : List Char) (h : SameRest c c') :
    Follows SameRest (SameChars (ρ := ρ)) (Answer.at? (c.stepOver? same cs))
      (Answer.at? (c'.stepOver? same cs)) := by
  induction cs generalizing c c' with
  | nil => exact .took h .nil
  | cons x cs ih =>
    rw [Cursor.stepOver?, Cursor.stepOver?, h]
    cases c.rest with
    | nil => exact .refused
    | cons y rest =>
      dsimp only
      split
      · exact ih rfl
      · exact .refused

theorem follows_next (k : CharClass) (h : SameRest c c') :
    Follows SameRest (SameChars (ρ := ρ)) (Answer.at? (c.next? k)) (Answer.at? (c'.next? k)) := by
  rw [Cursor.next?, Cursor.next?, h]
  cases c.rest with
  | nil => exact .refused
  | cons x rest =>
    dsimp only
    split
    · exact .took rfl .nil
    · exact .refused

theorem carries_leaf_of_sameRest {phrase : Phrase ρ} {ok : ρ → Bool}
    (hleaf : phrase.isLeaf = true) (hinner : phrase.isInner ok = true) (h : SameRest c c') :
    Carries g SameRest SameChars sp phrase c c' := by
  intro x hx
  cases hx with
  | text => exact ⟨_, .text, follows_stepOver _ _ h⟩
  | caseless => exact ⟨_, .caseless, follows_stepOver _ _ h⟩
  | one => exact ⟨_, .one, follows_next _ h⟩
  | startOfInput => cases hinner
  | endOfInput =>
    refine ⟨_, .endOfInput, ?_⟩
    rw [h]
    split
    · exact .took h .nil
    · exact .refused
  | _ => cases hleaf

theorem seals_of_sameRest (r : ρ) (h : SameRest c c') : Seals g SameRest SameChars sp r c c' := by
  intro d d' ps ps' hmet hx hx' _
  obtain ⟨cs, hcs⟩ := hx.took
  obtain ⟨cs', hcs'⟩ := hx'.took
  have heq : cs' ++ d.rest = cs ++ d.rest := by
    rw [← hcs.rest, ← show d'.rest = d.rest from hmet, ← hcs'.rest, h]
  change Piece.chars _ = Piece.chars _
  rw [hcs.chars, hcs'.chars]
  exact List.append_cancel_right heq

theorem closed_of_isInner {ok : ρ → Bool} (hbody : ∀ r, ok r = true → (g.body r).isInner ok = true)
    (spacings : Spacing → Prop)
    (hinner : ∀ r sp, spacings sp → spacings (innerSpacing (g.style r) sp))
    (hblank : spacings .loose → ∀ d d', SameRest d d' →
      Carries g SameRest SameChars .atomic g.blank d d') :
    Closed (ρ := ρ) ⟨SameRest, SameRest, SameChars, fun _ _ _ => False⟩ g fun sp a c c' =>
      spacings sp ∧ a.isInner ok = true ∧ SameRest c c' where
  met h := h.2.2
  blank h _ hmet := hblank (h.elim (fun h => h.elim fun _ => And.left) And.left) _ _ hmet
  lost_second _ h := h
  lost_right _ h := h
  lost_round _ h := h.elim
  lost_later _ h := h
  parts := by
    rintro sp a c c' ⟨hsp, ha, hrest⟩
    have hnext : ∀ {d d'}, Pairing.next ⟨SameRest, SameRest, SameChars (ρ := ρ), fun _ _ _ => False⟩
        sp d d' → SameRest d d' := fun h => by simpa [Pairing.next] using h
    cases a with
    | text | caseless | one | startOfInput | endOfInput =>
      exact .inl (settled_of_carries (carries_leaf_of_sameRest rfl ha hrest))
    | rule r =>
      exact .inr ⟨.inl ⟨hinner _ _ hsp, hbody _ ha, hrest⟩, fun _ => seals_of_sameRest _ hrest,
        nofun⟩
    | seq a b =>
      rw [Phrase.isInner, Bool.and_eq_true] at ha
      exact .inr ⟨.inl ⟨hsp, ha.1, hrest⟩, fun d d' h _ => .inl ⟨hsp, ha.2, hnext h⟩, nofun⟩
    | alt a b =>
      rw [Phrase.isInner, Bool.and_eq_true] at ha
      exact .inr ⟨.inl ⟨hsp, ha.1, hrest⟩, fun _ => .inl ⟨hsp, ha.2, hrest⟩, nofun⟩
    | many a =>
      exact .inr ⟨.inl ⟨hsp, ha, hrest⟩, fun d d' h _ =>
        ⟨.inl (.inl ⟨hsp, ha, hnext h⟩), .inl ⟨hsp, ha, hnext h⟩⟩, nofun⟩
    | opt | ahead | never => exact .inr ⟨.inl ⟨hsp, ha, hrest⟩, nofun⟩

/-- What a phrase answers does not depend on where the text stands. -/
theorem carries_of_sameRest {ok : ρ → Bool}
    (hbody : ∀ r, ok r = true → (g.body r).isInner ok = true) (hblank : g.blank.isInner ok = true)
    {phrase : Phrase ρ} (hphrase : phrase.isInner ok = true) (h : SameRest c c') :
    Carries g SameRest SameChars sp phrase c c' := by
  -- Inside tokens no blanks are skipped, so they come first.
  have htight : ∀ d d', SameRest d d' → Carries g SameRest SameChars .atomic g.blank d d' := by
    intro d d' hd
    refine (closed_of_isInner hbody (· ≠ .loose) ?_ ?_).carries (fun _ _ _ => id) ⟨?_, hblank, hd⟩
    · intro r sp hsp
      unfold innerSpacing innerMode
      split <;> simp_all
    · intro hloose
      exact absurd rfl hloose
    · decide
  exact (closed_of_isInner hbody (fun _ => True) (fun _ _ _ => trivial)
    fun _ => htight).carries (fun _ _ _ => id) ⟨trivial, hphrase, h⟩

end

/-- Texts on which a rule answers alike are matched together, with pieces that are alike. -/
theorem match_of_carries {m : Measure ρ} (hm : g.Bounded m) {r : ρ} {text text' : List Char}
    (hfits : g.fits m true (.rule r) = true) (hdepth : g.need m true (.rule r) ≤ g.depth)
    {ends : Cursor → Cursor → Prop} {kin : Piece ρ → Piece ρ → Prop}
    (h : Carries g ends kin .loose (.rule r) { rest := text } { rest := text' }) :
    (∃ ps ps', g.match? r text = .ok ps ∧ g.match? r text' = .ok ps' ∧
        List.Forall₂ (Alike kin) ps ps') ∨
      (∀ ps, g.match? r text ≠ .ok ps) ∧ ∀ ps, g.match? r text' ≠ .ok ps := by
  have hloose : g.fits m (Spacing.loose == .loose) (.rule r) = true := hfits
  obtain ⟨x, hx⟩ := exists_answers hm .loose { rest := text } hloose
  obtain ⟨x', hx', hfollows⟩ := h x hx
  cases hfollows with
  | refused =>
    refine .inr ⟨fun ps hps => ?_, fun ps hps => ?_⟩
    · obtain ⟨c, hc⟩ := answers_of_match hps
      cases hx.unique hc
    · obtain ⟨c, hc⟩ := answers_of_match hps
      cases hx'.unique hc
  | took _ halike =>
    exact .inl ⟨_, _, match_of_answers hm hdepth hx, match_of_answers hm hdepth hx', halike⟩

end Grammar

end PanelSchema
