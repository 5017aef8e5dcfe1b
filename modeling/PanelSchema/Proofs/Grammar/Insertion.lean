import PanelSchema.Proofs.Grammar.Beside

/-!
A text before and after something is added to it at one place. Up to the place both texts are
read in step. Where a match goes on behind it, the text that is left is the same again, and what
was taken differs by what was added.
-/

namespace PanelSchema

open Grammar

/-- The second piece is the first or somewhere inside it. -/
inductive Piece.Below {ρ : Type} : Piece ρ → Piece ρ → Prop where
  | here (p : Piece ρ) : Below p p
  | inside {p q r : Piece ρ} (h : Below p q) (hr : r ∈ q.inner) : Below p r

theorem Piece.Below.of_inner {ρ : Type} {p q r : Piece ρ} (h : p.Below r) (hp : p ∈ q.inner) :
    q.Below r := by
  induction h with
  | here => exact .inside (.here q) hp
  | inside _ hr ih => exact .inside ih hr

/-- Something is added between the front and the back of a text. -/
structure Insertion where
  front : List Char
  added : List Char
  back : List Char

namespace Insertion

variable (i : Insertion)

/-- The text without what is added. -/
def bare : List Char :=
  i.front ++ i.back

/-- The text with it. -/
def filled : List Char :=
  i.front ++ (i.added ++ i.back)

/-- Both cursors stand before the place, with `w` between. -/
structure Ahead (w : List Char) (c c' : Cursor) : Prop where
  suffix : w <:+ i.front
  rest : c.rest = w ++ i.back
  rest' : c'.rest = w ++ (i.added ++ i.back)
  offset : c.position.offset + w.length = i.front.length

/-- Both cursors stand behind what is added. -/
structure Behind (c c' : Cursor) : Prop where
  suffix : c.rest <:+ i.back
  same : SameRest c c'

/-- Both cursors stand before the place and the same text is between. -/
def InStep (c c' : Cursor) : Prop :=
  ∃ w, i.Ahead w c c'

def Meets (c c' : Cursor) : Prop :=
  i.InStep c c' ∨ i.Behind c c'

/-- The piece has `x` of its text before the place and `y` behind it. -/
structure Splits {ρ : Type} (x y : List Char) (p : Piece ρ) : Prop where
  source : p.source = x ++ i.back
  chars : p.chars = x ++ y

/-- The place is between two characters of the piece. -/
def Within {ρ : Type} (p : Piece ρ) : Prop :=
  ∃ x y, x ≠ [] ∧ y ≠ [] ∧ i.Splits x y p

/-- The pieces took the same text around the place, but for what is added there. -/
structure Widened {ρ : Type} (x y : List Char) (p q : Piece ρ) : Prop where
  splits : i.Splits x y p
  chars' : q.chars = x ++ (i.added ++ y)

/-- The pieces took the same text, or the place is in it in a way that is allowed of the first. -/
def Kin {ρ : Type} (allows : Piece ρ → List Char → List Char → Prop) (p q : Piece ρ) : Prop :=
  SameChars p q ∨ ∃ x y, allows p x y ∧ i.Widened x y p q

variable {i} {ρ : Type} {g : Grammar ρ} {sp : Spacing} {a b : Phrase ρ}
  {w w' cs cs' : List Char} {c c' d d' : Cursor} {ps ps' : List (Piece ρ)}

theorem Ahead.took (h : i.Ahead w c c') (hcs : c.Took d cs) (hd : i.Ahead w' d d') :
    w = cs ++ w' := by
  have heq := hcs.rest
  rw [h.rest, hd.rest, ← List.append_assoc] at heq
  exact List.append_cancel_right heq

theorem Ahead.advance (h : i.Ahead (cs ++ w') c c') (hcs : c.Took d cs) (hcs' : c'.Took d' cs) :
    i.Ahead w' d d' where
  suffix := (List.suffix_append cs w').trans h.suffix
  rest := hcs.rest_eq (by rw [h.rest, List.append_assoc])
  rest' := hcs'.rest_eq (by rw [h.rest', List.append_assoc])
  offset := by
    have hoffset := h.offset
    rw [List.length_append] at hoffset
    rw [hcs.offset]
    omega

theorem Ahead.chars (h : i.Ahead w c c') (hd : i.InStep d d') (hcs : c.Took d cs)
    (hcs' : c'.Took d' cs') : cs' = cs := by
  obtain ⟨w', hd⟩ := hd
  have heq := hcs'.rest
  rw [h.rest', hd.rest', h.took hcs hd, List.append_assoc] at heq
  exact (List.append_cancel_right heq).symm

theorem Ahead.across (h : i.Ahead w c c') (hd : i.Behind d d') (hcs : c.Took d cs)
    (hcs' : c'.Took d' cs') :
    ∃ y, cs = w ++ y ∧ cs' = w ++ (i.added ++ y) ∧ i.back = y ++ d.rest := by
  obtain ⟨y, hy⟩ := hd.suffix
  refine ⟨y, ?_, ?_, hy.symm⟩
  · have heq := hcs.rest
    rw [h.rest, ← hy, ← List.append_assoc] at heq
    exact (List.append_cancel_right heq).symm
  · have heq := hcs'.rest
    rw [h.rest', hd.same, ← hy] at heq
    exact (List.append_cancel_right (by simpa using heq)).symm

theorem Ahead.widened (h : i.Ahead w c c') (hd : i.Behind d d') (hcs : c.Took d cs)
    (hcs' : c'.Took d' cs') (r : ρ) :
    ∃ y, i.back = y ++ d.rest ∧ i.Widened w y (c.piece d r ps) (c'.piece d' r ps') := by
  obtain ⟨y, hy, hy', hback⟩ := h.across hd hcs hcs'
  refine ⟨y, hback, ⟨h.rest, ?_⟩, ?_⟩
  · rw [hcs.chars, hy]
  · rw [hcs'.chars, hy']

/-! ### Phrases that are read in step -/

/-- Where `w` stands before the place, the phrase does not notice what is added behind it. -/
def Keeps (i : Insertion) (g : Grammar ρ) (sp : Spacing) (phrase : Phrase ρ) (w : List Char) :
    Prop :=
  ∀ c c', i.Ahead w c c' → Carries g i.InStep SameChars sp phrase c c'

theorem keeps_of_refuses (h : Refuses g sp a (w ++ i.back))
    (h' : Refuses g sp a (w ++ (i.added ++ i.back))) : i.Keeps g sp a w := by
  intro c c' hahead
  apply carries_of_refuses
  · rwa [hahead.rest]
  · rwa [hahead.rest']

theorem keeps_of_takes (h : Takes g sp a cs (w ++ i.back) Bare)
    (h' : Takes g sp a cs (w ++ (i.added ++ i.back)) Bare) : i.Keeps g sp a (cs ++ w) := by
  intro c c' hahead x hx
  obtain ⟨d, ps, hd, htook, rfl⟩ := h c (by rw [hahead.rest, List.append_assoc])
  obtain ⟨d', ps', hd', htook', rfl⟩ := h' c' (by rw [hahead.rest', List.append_assoc])
  rw [hx.unique hd]
  exact ⟨_, hd', .took ⟨w, hahead.advance htook htook'⟩ .nil⟩

theorem keeps_text (h : cs <+: w ++ i.back → cs <+: w)
    (h' : cs <+: w ++ (i.added ++ i.back) → cs <+: w) : i.Keeps g sp (.text cs) w := by
  by_cases hcs : cs <+: w
  · obtain ⟨w', rfl⟩ := hcs
    exact keeps_of_takes (takes_text _ _) (takes_text _ _)
  · exact keeps_of_refuses (refuses_text fun hpre => hcs (h hpre))
      (refuses_text fun hpre => hcs (h' hpre))

theorem keeps_one {k : CharClass} (hw : w ≠ []) : i.Keeps g sp (.one k) w := by
  obtain ⟨x, w', rfl⟩ := List.exists_cons_of_ne_nil hw
  cases hx : k.holds x with
  | true => exact keeps_of_takes (takes_one hx _) (takes_one hx _)
  | false =>
    have hnot : ∀ rest, Refuses g sp (.one k) (x :: w' ++ rest) := fun rest =>
      refuses_one (by simpa using hx)
    exact keeps_of_refuses (hnot _) (hnot _)

theorem carries_startOfInput {ends : Cursor → Cursor → Prop} {kin : Piece ρ → Piece ρ → Prop}
    (hahead : i.Ahead i.front c c') (hstart : c'.position.offset = 0) (hends : ends c c') :
    Carries g ends kin sp .startOfInput c c' := by
  intro x hx
  cases hx with
  | startOfInput =>
    have hoffset := hahead.offset
    refine ⟨_, .startOfInput, ?_⟩
    rw [if_pos (by omega), if_pos hstart]
    exact .took hends .nil

theorem keeps_endOfInput (hw : w ≠ []) : i.Keeps g sp .endOfInput w := by
  intro c c' hahead x hx
  cases hx with
  | endOfInput =>
    refine ⟨_, .endOfInput, ?_⟩
    rw [if_neg (by simp [hahead.rest, hw]), if_neg (by simp [hahead.rest', hw])]
    exact .refused

theorem Keeps.alt (ha : i.Keeps g sp a w) (hb : i.Keeps g sp b w) : i.Keeps g sp (.alt a b) w := by
  intro c c' hahead x hx
  cases hx with
  | left h =>
    obtain ⟨d', ps', h', hends, halike⟩ := (ha c c' hahead).took h
    exact ⟨_, .left h', .took hends halike⟩
  | right ha' hb' =>
    obtain ⟨x', hx', hfollows⟩ := hb c c' hahead _ hb'
    exact ⟨x', .right ((ha c c' hahead).refused ha') hx', hfollows⟩

theorem Keeps.opt (ha : i.Keeps g sp a w) : i.Keeps g sp (.opt a) w := by
  intro c c' hahead x hx
  cases hx with
  | present h =>
    obtain ⟨d', ps', h', hends, halike⟩ := (ha c c' hahead).took h
    exact ⟨_, .present h', .took hends halike⟩
  | absent h => exact ⟨_, .absent ((ha c c' hahead).refused h), .took ⟨w, hahead⟩ .nil⟩

theorem Keeps.never (ha : i.Keeps g sp a w) : i.Keeps g sp (.never a) w := by
  intro c c' hahead x hx
  cases hx with
  | never h =>
    obtain ⟨x', hx', hfollows⟩ := ha c c' hahead _ h
    refine ⟨_, .never hx', ?_⟩
    cases hfollows with
    | refused => exact .took ⟨w, hahead⟩ .nil
    | took => exact .refused

theorem carries_rule {ends : Cursor → Cursor → Prop} {kin : Piece ρ → Piece ρ → Prop} {r : ρ}
    (hseals : Seals g ends kin (innerSpacing (g.style r) sp) r c c')
    (h : Carries g ends kin (innerSpacing (g.style r) sp) (g.body r) c c') :
    Carries g ends kin sp (.rule r) c c' := by
  intro x hx
  cases hx with
  | silent hstyle hx =>
    rw [hstyle] at h
    obtain ⟨x', hx', hfollows⟩ := h x hx
    exact ⟨x', .silent hstyle hx', hfollows⟩
  | rule hstyle hx =>
    obtain ⟨x', hx', hfollows⟩ := h _ hx
    exact ⟨_, .rule hstyle hx', hseals.closed hx hx' hfollows⟩

theorem Ahead.sameChars (h : i.Ahead w c c') (hd : i.InStep d d') (hcs : c.Took d cs)
    (hcs' : c'.Took d' cs') (r : ρ) : SameChars (c.piece d r ps) (c'.piece d' r ps') := by
  rw [SameChars, hcs.chars, hcs'.chars]
  exact h.chars hd hcs hcs'

theorem Keeps.rule {r : ρ} (h : i.Keeps g (innerSpacing (g.style r) sp) (g.body r) w) :
    i.Keeps g sp (.rule r) w := by
  intro c c' hahead
  refine carries_rule (fun d d' ps ps' hd hx hx' _ => ?_) (h c c' hahead)
  obtain ⟨cs, hcs⟩ := hx.took
  obtain ⟨cs', hcs'⟩ := hx'.took
  exact hahead.sameChars hd hcs hcs' r

/-! ### Sequences and repetitions inside tokens -/

section

variable {ends : Cursor → Cursor → Prop} {kin : Piece ρ → Piece ρ → Prop}

theorem carries_seq (hsp : sp ≠ .loose) (hkin : ∀ p q, SameChars p q → kin p q)
    (ha : i.Keeps g sp a w)
    (hb : ∀ cs w' ps, w = cs ++ w' → Reads g sp a cs ps →
      ∀ d d', i.Ahead w' d d' → Carries g ends kin sp b d d')
    (hahead : i.Ahead w c c') : Carries g ends kin sp (.seq a b) c c' := by
  intro x hx
  cases hx with
  | seq_refused h => exact ⟨none, .seq_refused ((ha c c' hahead).refused h), .refused⟩
  | @seq_tight _ _ _ _ d ps _ _ h hb' =>
    obtain ⟨d', ps', h', ⟨w', hd⟩, halike⟩ := (ha c c' hahead).took h
    obtain ⟨cs, hcs⟩ := h.took
    obtain ⟨x', hx', hfollows⟩ :=
      hb cs w' ps (hahead.took hcs hd) ⟨c, d, h, hcs⟩ d d' hd _ hb'
    exact ⟨_, .seq_tight hsp h' hx',
      hfollows.behind (halike.imp fun _ _ => Alike.mono hkin)⟩
  | seq_loose | seq_blank => exact absurd rfl hsp

/-- Rounds before the place are read in step, as long as what is left before it is as `inv`
says. -/
theorem carries_many (inv : List Char → Prop) (hsp : sp ≠ .loose)
    (hends : ∀ w d d', w ≠ [] → i.Ahead w d d' → ends d d')
    (hsolid : ∀ cs ps, Reads g sp a cs ps → cs ≠ [])
    (hround : ∀ w', inv w' → w' ≠ [] → i.Keeps g sp a w')
    (hnext : ∀ cs w' ps, inv (cs ++ w') → Reads g sp a cs ps → inv w')
    (hplace : inv [] → ∀ d d', i.Ahead [] d d' → Carries g ends SameChars sp (.many a) d d')
    (hinv : inv w) (hahead : i.Ahead w c c') : Carries g ends SameChars sp (.many a) c c' := by
  induction hn : w.length using Nat.strongRecOn generalizing w c c' with
  | ind n ih =>
    by_cases hw : w = []
    · subst hw
      exact hplace hinv c c' hahead
    · intro x hx
      have ha := hround w hinv hw c c' hahead
      cases hx with
      | done h => exact ⟨_, .done (ha.refused h), .took (hends w _ _ hw hahead) .nil⟩
      | @more_tight _ _ _ d e ps qs _ h hmore =>
        obtain ⟨d', ps', h', ⟨w', hd⟩, halike⟩ := ha.took h
        obtain ⟨cs, hcs⟩ := h.took
        have hreads : Reads g sp a cs ps := ⟨c, d, h, hcs⟩
        obtain rfl := hahead.took hcs hd
        have hshorter : w'.length < n := by
          have := List.length_pos_of_ne_nil (hsolid cs ps hreads)
          rw [← hn, List.length_append]
          omega
        obtain ⟨e', qs', hmore', hends', halike'⟩ :=
          (ih _ hshorter (hnext cs w' ps hinv hreads) hd rfl).took hmore
        exact ⟨_, .more_tight hsp h' hmore', .took hends' (List.rel_append halike halike')⟩
      | more_loose | last | last_blank => exact absurd rfl hsp

end

theorem Keeps.seq (hsp : sp ≠ .loose) (ha : i.Keeps g sp a w)
    (hb : ∀ cs w' ps, w = cs ++ w' → Reads g sp a cs ps → i.Keeps g sp b w') :
    i.Keeps g sp (.seq a b) w :=
  fun _ _ => carries_seq hsp (fun _ _ => id) ha hb

theorem Keeps.seq_takes (hsp : sp ≠ .loose) (ha : i.Keeps g sp a (cs ++ w))
    {P : List (Piece ρ) → Prop} (hcs : Takes g sp a cs (w ++ i.back) P) (hb : i.Keeps g sp b w) :
    i.Keeps g sp (.seq a b) (cs ++ w) := by
  intro c c' hahead x hx
  obtain ⟨d, ps, hd, htook, -⟩ := hcs c (by rw [hahead.rest, List.append_assoc])
  obtain ⟨d', ps', hd', ⟨w', hahead'⟩, halike⟩ := (ha c c' hahead).took hd
  obtain rfl : w = w' := List.append_cancel_left (hahead.took htook hahead')
  cases hx with
  | seq_refused h => cases h.unique hd
  | seq_tight _ h hx =>
    cases h.unique hd
    obtain ⟨x', hx', hfollows⟩ := hb d d' hahead' _ hx
    exact ⟨_, .seq_tight hsp hd' hx', hfollows.behind halike⟩
  | seq_loose | seq_blank => exact absurd rfl hsp

theorem keeps_run (hsp : sp ≠ .loose) (hsolid : ∀ cs ps, Reads g sp a cs ps → cs ≠ [])
    (hround : ∀ w', w' <:+ i.front → w' ≠ [] → i.Keeps g sp a w')
    (hplace : ∀ cs ps, Reads g sp a cs ps → cs <:+ i.front → i.Keeps g sp (.many a) [])
    (hsuffix : w <:+ i.front) (hw : w ≠ []) : i.Keeps g sp (.many a) w := by
  refine fun _ _ => carries_many
    (fun v => v <:+ i.front ∧ (v = [] → ∃ cs ps, Reads g sp a cs ps ∧ cs <:+ i.front)) hsp
    (fun w _ _ _ h => ⟨w, h⟩) hsolid (fun w' h => hround w' h.1) ?_ ?_
    ⟨hsuffix, fun h => absurd h hw⟩
  · rintro cs w' ps ⟨hsuf, -⟩ hreads
    refine ⟨(List.suffix_append cs w').trans hsuf, ?_⟩
    rintro rfl
    exact ⟨cs, ps, hreads, by simpa using hsuf⟩
  · rintro ⟨-, hlast⟩
    obtain ⟨cs, ps, hreads, hsuf⟩ := hlast rfl
    exact hplace cs ps hreads hsuf

/-- A repetition takes what stands before the text, one character a round, and goes on as it would
without it. -/
theorem carries_many_past {added : List Char} (hsp : sp ≠ .loose)
    (hadded : ∀ x ∈ added, ∀ rest, Takes g sp a [x] rest Bare)
    (hsame : ∀ d d', SameRest d d' → Carries g SameRest SameChars sp (.many a) d d')
    (hrest : c'.rest = added ++ c.rest) : Carries g SameRest SameChars sp (.many a) c c' := by
  induction added generalizing c' with
  | nil => exact hsame c c' hrest
  | cons z added ih =>
    intro x hx
    rw [List.forall_mem_cons] at hadded
    obtain ⟨d', _, hz, htook, rfl⟩ := hadded.1 (added ++ c.rest) c' hrest
    obtain ⟨x', hx', hfollows⟩ := ih hadded.2 (htook.rest_eq hrest) x hx
    cases hfollows with
    | refused => cases hx'
    | took hends halike => exact ⟨_, .more_tight hsp hz hx', .took hends (by simpa using halike)⟩

/-! ### Across the place -/

variable (i) in
/-- Both cursors stand before the place but not at it, or behind what is added. -/
def Faces (c c' : Cursor) : Prop :=
  (∃ w, w ≠ [] ∧ i.Ahead w c c') ∨ i.Behind c c'

variable (i) in
/-- Both cursors stand before the place, or behind something that followed it. -/
def Clears (c c' : Cursor) : Prop :=
  i.InStep c c' ∨ i.Behind c c' ∧ c.rest.length < i.back.length

theorem Clears.meets (h : i.Clears c c') : i.Meets c c' :=
  h.imp id And.left

theorem meets_of_behind (h : i.Behind c c') : i.Meets c c' :=
  .inr h

theorem meets_of_inStep (h : i.InStep c c') : i.Meets c c' :=
  .inl h

theorem Behind.carries (h : i.Behind c c')
    (hsame : Carries g SameRest SameChars sp a c c') : Carries g i.Behind SameChars sp a c c' := by
  intro x hx
  obtain ⟨x', hx', hfollows⟩ := hsame x hx
  refine ⟨x', hx', ?_⟩
  cases hfollows with
  | refused => exact .refused
  | took hends halike => exact .took ⟨hx.suffix.trans h.suffix, hends⟩ halike

theorem carries_run (hsp : sp ≠ .loose) (hsolid : ∀ cs ps, Reads g sp a cs ps → cs ≠ [])
    (hround : ∀ w', w' <:+ i.front → w' ≠ [] → i.Keeps g sp a w')
    (hadded : ∀ x ∈ i.added, ∀ rest, Takes g sp a [x] rest Bare)
    (hsame : ∀ d d', SameRest d d' → Carries g SameRest SameChars sp (.many a) d d')
    (hahead : i.Ahead w c c') : Carries g i.Faces SameChars sp (.many a) c c' := by
  have hplace : ∀ d d', i.Ahead [] d d' → Carries g i.Faces SameChars sp (.many a) d d' := by
    intro d d' hd x hx
    have hrest : d'.rest = i.added ++ d.rest := by rw [hd.rest, hd.rest']; rfl
    obtain ⟨x', hx', hfollows⟩ := carries_many_past hsp hadded hsame hrest x hx
    refine ⟨x', hx', ?_⟩
    cases hfollows with
    | refused => exact .refused
    | took hends halike =>
      have hsuffix := hx.suffix
      rw [hd.rest] at hsuffix
      exact .took (.inr ⟨hsuffix, hends⟩) halike
  exact carries_many (· <:+ i.front) hsp (fun w _ _ hw h => .inl ⟨w, hw, h⟩) hsolid hround
    (fun cs w' _ hsuf _ => (List.suffix_append cs w').trans hsuf) (fun _ => hplace) hahead.suffix
    hahead

variable {allows : Piece ρ → List Char → List Char → Prop}

theorem kin_of_same (p q : Piece ρ) (h : SameChars p q) : i.Kin allows p q :=
  .inl h

theorem Ahead.isKin {r : ρ} (h : i.Ahead w c c') (hcs : c.Took d cs) (hcs' : c'.Took d' cs')
    (hends : i.InStep d d' ∨
      i.Behind d d' ∧ ∀ y, i.back = y ++ d.rest → allows (c.piece d r ps) w y) :
    i.Kin allows (c.piece d r ps) (c'.piece d' r ps') := by
  rcases hends with hd | ⟨hd, hallows⟩
  · exact .inl (h.sameChars hd hcs hcs' r)
  · obtain ⟨y, hback, hwidened⟩ := h.widened hd hcs hcs' r
    exact .inr ⟨w, y, hallows y hback, hwidened⟩

theorem Ahead.seals {ends : Cursor → Cursor → Prop} {r : ρ} (h : i.Ahead w c c')
    (hends : ∀ d d', ends d d' → i.InStep d d' ∨
      i.Behind d d' ∧ ∀ y, i.back = y ++ d.rest → ∀ p, p.rule = r → allows p w y) :
    Seals g ends (i.Kin allows) sp r c c' := by
  intro d d' ps ps' hd hx hx' _
  obtain ⟨cs, hcs⟩ := hx.took
  obtain ⟨cs', hcs'⟩ := hx'.took
  refine h.isKin hcs hcs' ((hends d d' hd).imp id fun hbehind => ⟨hbehind.1, fun y hy => ?_⟩)
  exact hbehind.2 y hy _ rfl

theorem Keeps.carries {ends : Cursor → Cursor → Prop}
    (hends : ∀ d d', i.InStep d d' → ends d d') (h : i.Keeps g sp a w) (hahead : i.Ahead w c c') :
    Carries g ends (i.Kin allows) sp a c c' :=
  (h c c' hahead).mono hends kin_of_same

end Insertion

end PanelSchema
